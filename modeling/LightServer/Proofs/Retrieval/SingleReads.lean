import LightServer.Gateway.Stream
import LightServer.Proofs.Retrieval.Forecast
import LightServer.Proofs.Retrieval.Order
import LightServer.Proofs.Retrieval.Stream

/-!
# A range as single reads

A range is read as if its heights were read one by one: its items are those of the single
reads, up to the first error, and the node is called for the heights that the cache has
come to and has nothing at. That is so in whatever order the producer and a reader that
keeps reading act, as long as the cache stays as it is and the deadline does not come. The
turns that `Stream.drain` has them take are one such order, in which nobody waits but for
the node. So the range then takes as long as the single reads do one after the other, and
the deadline does not come exactly if those would be through before it.
-/

namespace LightServer

open LightServer.Retrieval

def heightsBetween (start stop : Nat) : List Nat :=
  if start ≤ stop then List.range' start (stop + 1 - start)
  else (List.range' stop (start + 1 - stop)).reverse

theorem Retrieval.Range.heights_begin (capacity start stop : Nat) :
    (Range.begin capacity start stop).heights = heightsBetween start stop := by
  unfold heights heightsBetween
  refine List.ext_getElem ?_ ?_
  · simp only [List.length_map, List.length_range, span, begin]
    split
    · rw [List.length_range']
      omega
    · rw [List.length_reverse, List.length_range']
      omega
  · intro i hi hi'
    simp only [List.length_map, List.length_range, span, begin] at hi
    simp only [List.getElem_map, List.getElem_range, begin]
    split
    · rw [List.getElem_range']
      omega
    · rw [List.getElem_reverse, List.getElem_range', List.length_range']
      omega

/-- The cache has come to the height and has nothing there, so that a read asks the node. -/
def Cache.asksNode (c : Cache) (height : Nat) : Bool :=
  c.entries[height]?.isNone && c.latestHeight.any fun tip => height ≤ tip

variable {ν : Type} {p : NodeAccess ν} {source : Nat → FetchReply} {c : Cache} {height : Nat}

theorem Retrieval.firstLook_eq_none_iff :
    firstLook height c = none ↔ c.entries[height]? = none := by
  unfold firstLook Cache.get
  cases c.entries[height]? with
  | none => simp
  | some e => cases hdecode : c.codec.decode e.data <;> simp [hdecode]

/-- Two looks at the same cache tell whether the node is asked. -/
theorem Retrieval.ReadPhase.lookTwice_cases (height : Nat) (c : Cache) :
    (c.asksNode height = true ∧ lookTwice height c = .asking) ∨
      (c.asksNode height = false ∧ ∃ item, lookTwice height c = .done item) := by
  unfold lookTwice look Cache.asksNode
  cases hfirst : firstLook height c with
  | some item =>
      have hthere : c.entries[height]? ≠ none := fun hnone =>
        Option.some_ne_none item (hfirst.symm.trans (firstLook_eq_none_iff.mpr hnone))
      exact Or.inr ⟨by simp [hthere], item, rfl⟩
  | none =>
      rw [firstLook_eq_none_iff.mp hfirst]
      unfold secondLook
      cases c.latestHeight with
      | none => exact Or.inr ⟨rfl, _, rfl⟩
      | some tip => by_cases hle : height ≤ tip <;> simp [hle]

namespace NodeAccess

theorem Answers.logging (hp : p.Answers source) : p.logging.Answers source :=
  fun height s => hp height ⟨s.world.1, s.cache, s.metrics, s.now⟩

theorem Answers.reply_eq (hp : p.Answers source) (height : Nat) (m : Moment ν) :
    (p.reply height m).1 = source height :=
  hp height ⟨m.1, .empty .standard 0, {}, m.2⟩

/-- The item that a read comes to does not depend on the moment, if the node answers from a
source. -/
theorem Answers.conclude_eq (hp : p.Answers source) (c : Cache) (height : Nat) (m m' : Moment ν) :
    (p.conclude c height .looking m).1 = (p.conclude c height .looking m').1 := by
  unfold conclude
  split
  · rfl
  · simp only [hp.reply_eq]

theorem Answers.readAll_eq (hp : p.Answers source) (s : Backend ν) (hs : List Nat)
    (m : Moment ν) :
    (p.readAll s.cache hs m).1 = Gateway.upToError (hs.map fun h => (s.readBlock p h).1) := by
  induction hs generalizing m with
  | nil => rfl
  | cons h hs ih =>
      have hitem : (p.conclude s.cache h .looking m).1 = (s.readBlock p h).1 :=
        (hp.conclude_eq s.cache h m s.moment).trans (s.readBlock_eq p h).1.symm
      rw [readAll, List.map_cons, hitem]
      cases (s.readBlock p h).1 with
      | ok b => rw [andThen, Gateway.upToError, ih]
      | error e => rfl

/-- A read calls the node for its height, if it does not find out from the cache. -/
theorem log_conclude (p : NodeAccess ν) (c : Cache) (height : Nat) (m : Moment (ν × List Nat)) :
    (p.logging.conclude c height .looking m).2.1.2 = m.1.2 ++ [height].filter c.asksNode := by
  rcases ReadPhase.lookTwice_cases height c with ⟨hasks, hlook⟩ | ⟨hasks, item, hlook⟩
  · unfold ReadPhase.lookTwice at hlook
    rw [conclude, hlook, List.filter_cons_of_pos hasks]
    rfl
  · unfold ReadPhase.lookTwice at hlook
    rw [conclude, hlook, List.filter_cons_of_neg (by simp [hasks]), List.filter_nil,
      List.append_nil]

/-- The node is called for the heights that are read, as far as the reads ask it. -/
theorem log_readAll (p : NodeAccess ν) (c : Cache) (hs : List Nat)
    (m : Moment (ν × List Nat)) :
    (p.logging.readAll c hs m).2.1.2 =
      m.1.2 ++ (hs.take (p.logging.readAll c hs m).1.length).filter c.asksNode := by
  induction hs generalizing m with
  | nil => simp [readAll]
  | cons h hs ih =>
      have hcalled := log_conclude p c h m
      rw [readAll]
      cases (p.logging.conclude c h .looking m).1 with
      | ok b =>
          simp only [andThen, List.length_cons, List.take_succ_cons]
          rw [ih, hcalled, List.append_assoc, ← List.filter_append, List.singleton_append]
      | error e =>
          simp only [andThen, List.length_singleton, List.take_succ_cons, List.take_zero]
          exact hcalled

theorem length_readAll_le (p : NodeAccess ν) (c : Cache) (hs : List Nat) (m : Moment ν) :
    (p.readAll c hs m).1.length ≤ hs.length := by
  induction hs generalizing m with
  | nil => exact Nat.le_refl _
  | cons h hs ih =>
      rw [readAll]
      cases (p.conclude c h .looking m).1 with
      | ok b => exact Nat.succ_le_succ (ih _)
      | error e => exact Nat.succ_le_succ (Nat.zero_le _)

end NodeAccess

namespace Backend

def readEach (p : NodeAccess ν) : List Nat → Backend ν → List Item × Backend ν
  | [], s => ([], s)
  | h :: hs, s =>
      match s.readBlock p h with
      | (.ok b, s) =>
          let (items, s) := readEach p hs s
          (.ok b :: items, s)
      | (.error e, s) => ([.error e], s)

theorem readEach_eq (p : NodeAccess ν) (hs : List Nat) (s : Backend ν) :
    ((s.readEach p hs).1, (s.readEach p hs).2.moment) = p.readAll s.cache hs s.moment := by
  induction hs generalizing s with
  | nil => rfl
  | cons h hs ih =>
      obtain ⟨hitem, hmoment, hcache⟩ := s.readBlock_eq p h
      rw [NodeAccess.readAll, ← hitem, ← hmoment, readEach]
      generalize s.readBlock p h = read at hcache ⊢
      rcases read with ⟨_ | b, s'⟩
      · rfl
      · have hrest := ih s'
        rw [hcache] at hrest
        simp only [NodeAccess.andThen, ← hrest]

namespace Stream

variable {st₀ st st' : Stream ν} {s₀ s s' : Backend ν} {n : Nat}

/-- What the producer and a reader that keeps reading can come to in `n` steps, in whatever order
they act and however time passes in between, if the deadline has not come when the producer acts. -/
inductive Unhurried (p : NodeAccess ν) (st₀ : Stream ν) (s₀ : Backend ν) :
    Nat → Stream ν → Backend ν → Prop where
  | begin : Unhurried p st₀ s₀ 0 st₀ s₀
  | produce {n : Nat} {st st' : Stream ν} {s s' : Backend ν} (h : Unhurried p st₀ s₀ n st s)
      (hearly : s.now < st.deadline) (hstep : st.step? p s = some (st', s')) :
      Unhurried p st₀ s₀ (n + 1) st' s'
  | take {n : Nat} {st : Stream ν} {s : Backend ν} (h : Unhurried p st₀ s₀ n st s)
      (hbuffer : st.range.buffer ≠ []) :
      Unhurried p st₀ s₀ (n + 1) (st.withRange st.range.take) s
  | wait {n : Nat} {st : Stream ν} {s : Backend ν} (h : Unhurried p st₀ s₀ n st s) (t : Nat) :
      Unhurried p st₀ s₀ n st (s.waitUntil t)

/-- What the steps leave as it was, and how many of them there can have been. -/
structure Kept (p : NodeAccess ν) (st₀ : Stream ν) (s₀ : Backend ν) (n : Nat) (st : Stream ν)
    (s : Backend ν) : Prop where
  sound : st.Sound
  whole : timeless (st.whole p s₀.cache s.moment) = timeless (st₀.whole p s₀.cache s₀.moment)
  bounded : n + st.left ≤ st₀.left
  deadline : st.deadline = st₀.deadline
  cache : s.cache = s₀.cache

theorem Kept.of_carries (h : Kept p st₀ s₀ n st s)
    (hcarries : Carries p s₀.cache st s.moment st' s'.moment) (hcache : s'.cache = s.cache) :
    Kept p st₀ s₀ (n + 1) st' s' where
  sound := hcarries.sound
  whole := by rw [hcarries.whole, h.whole]
  bounded := by
    have hless := hcarries.left
    have hbounded := h.bounded
    omega
  deadline := hcarries.deadline.trans h.deadline
  cache := hcache.trans h.cache

/-- The reader cannot have more items, and have more waiting for it, than there are. -/
theorem Kept.length_le (h : Kept p st₀ s₀ n st s) :
    st.range.taken.length + st.range.buffer.length ≤
      (st₀.whole p s₀.cache s₀.moment).1.length := by
  have hitems : (st.whole p s₀.cache s.moment).1 = (st₀.whole p s₀.cache s₀.moment).1 :=
    (Prod.mk.inj h.whole).1
  rw [← hitems, Stream.whole, List.length_append, List.length_append]
  exact Nat.le_add_right _ _

theorem Unhurried.kept (h : Unhurried p st₀ s₀ n st s) (hst₀ : st₀.Sound) :
    Kept p st₀ s₀ n st s := by
  induction h with
  | begin => exact ⟨hst₀, rfl, Nat.le_of_eq (Nat.zero_add _), rfl, rfl⟩
  | @produce n st st' s s' _ hearly hstep ih =>
      have hworks := works_of_step? ih.sound hearly hstep
      exact ih.of_carries (ih.cache ▸ hworks.carries) hworks.cache
  | @take n st s _ hbuffer ih =>
      obtain ⟨item, rest, hbuffer⟩ := List.exists_cons_of_ne_nil hbuffer
      exact ih.of_carries (carries_take ih.sound hbuffer) rfl
  | @wait n st s _ t ih =>
      have hwhole := (st.clocked_whole p s₀.cache).untimed s.world (max s.now t) s.now
      exact ⟨ih.sound, hwhole.trans ih.whole, ih.bounded, ih.deadline, ih.cache⟩

/-- The same as `Unhurried`, with no more waiting than for a fetch. -/
inductive Prompt (p : NodeAccess ν) (st₀ : Stream ν) (s₀ : Backend ν) :
    Nat → Stream ν → Backend ν → Prop where
  | begin : Prompt p st₀ s₀ 0 st₀ s₀
  | produce {n : Nat} {st st' : Stream ν} {s s' : Backend ν} (h : Prompt p st₀ s₀ n st s)
      (hearly : s.now < st.deadline) (hstep : st.step? p s = some (st', s')) :
      Prompt p st₀ s₀ (n + 1) st' s'
  | take {n : Nat} {st : Stream ν} {s : Backend ν} (h : Prompt p st₀ s₀ n st s)
      (hbuffer : st.range.buffer ≠ []) :
      Prompt p st₀ s₀ (n + 1) (st.withRange st.range.take) s
  | wait {n : Nat} {st : Stream ν} {s : Backend ν} {f : Fetch ν} (h : Prompt p st₀ s₀ n st s)
      (hpending : st.pending = some f) : Prompt p st₀ s₀ n st (s.waitUntil f.ready)

theorem Prompt.unhurried (h : Prompt p st₀ s₀ n st s) : Unhurried p st₀ s₀ n st s := by
  induction h with
  | begin => exact .begin
  | produce _ hearly hstep ih => exact ih.produce hearly hstep
  | take _ hbuffer ih => exact ih.take hbuffer
  | wait _ _ ih => exact ih.wait _

/-- Without needless waiting the time at which all will be there does not change, either. -/
theorem Prompt.whole_eq (h : Prompt p st₀ s₀ n st s) (hst₀ : st₀.Sound) :
    st.whole p s₀.cache s.moment = st₀.whole p s₀.cache s₀.moment := by
  induction h with
  | begin => rfl
  | produce h hearly hstep ih =>
      have hkept := h.unhurried.kept hst₀
      have hcarries := (works_of_step? hkept.sound hearly hstep).carries
      rw [hkept.cache] at hcarries
      exact hcarries.whole.trans ih
  | take h hbuffer ih =>
      obtain ⟨item, rest, hbuffer⟩ := List.exists_cons_of_ne_nil hbuffer
      exact (carries_take (h.unhurried.kept hst₀).sound hbuffer).whole.trans ih
  | wait h hpending ih =>
      exact (whole_of_le_ready (h.unhurried.kept hst₀).sound hpending (Nat.le_refl _)).trans ih

theorem Reaches.isPrefix_taken {r r' : Range} (h : Reaches r r') : r.taken <+: r'.taken := by
  obtain ⟨ms, -, rfl⟩ := h
  have hprefix := Course.taken_prefix_run ms ⟨r, [], [], false, false⟩
  rwa [range_run] at hprefix

theorem length_repeat_take (k : Nat) (r : Range) :
    (Nat.repeat Range.take k r).buffer.length = r.buffer.length - k ∧
      (Nat.repeat Range.take k r).taken.length + (Nat.repeat Range.take k r).buffer.length =
        r.taken.length + r.buffer.length := by
  induction k with
  | zero => exact ⟨rfl, rfl⟩
  | succ k ih =>
      rw [Nat.repeat, Range.take]
      split
      next hbuffer =>
        rw [hbuffer, List.length_nil] at ih
        rw [hbuffer, List.length_nil]
        exact ⟨by omega, ih.2⟩
      next item rest hbuffer =>
        rw [hbuffer, List.length_cons] at ih
        simp only [List.length_append, List.length_singleton]
        omega

/-- The reader takes items that wait for it. -/
theorem Prompt.repeat_take (h : Prompt p st₀ s₀ n st s) {k : Nat}
    (hk : k ≤ st.range.buffer.length) :
    Prompt p st₀ s₀ (n + k) (st.withRange (Nat.repeat Range.take k st.range)) s := by
  induction k with
  | zero => exact h
  | succ k ih =>
      refine (ih (Nat.le_of_succ_le hk)).take ?_
      have hlength := (length_repeat_take k st.range).1
      rw [← List.length_pos_iff]
      change 0 < (Nat.repeat Range.take k st.range).buffer.length
      omega

theorem now_le_waitUntil (t : Nat) (s : Backend ν) : s.now ≤ (s.waitUntil t).now :=
  Nat.le_max_left _ _

theorem le_now_waitUntil (t : Nat) (s : Backend ν) : t ≤ (s.waitUntil t).now :=
  Nat.le_max_right _ _

theorem now_turnSteps (fuel budget : Nat) (st : Stream ν) (s : Backend ν) :
    (st.turnSteps p fuel budget s).2.now = s.now := by
  induction fuel generalizing budget st s with
  | zero => rfl
  | succ fuel ih =>
      unfold Stream.turnSteps
      split
      · rfl
      · split
        · rfl
        next hstep => rw [ih, now_step? hstep]

/-- Time only goes on while a stream is read. -/
theorem now_le_readTurns (fuel budget k : Nat) (st : Stream ν) (s : Backend ν) :
    s.now ≤ (st.readTurns p fuel budget k s).2.now := by
  induction fuel generalizing budget k st s with
  | zero => exact Nat.le_refl _
  | succ fuel ih =>
      unfold Stream.readTurns
      simp only
      split
      · exact Nat.le_refl _
      · generalize st.withRange (Nat.repeat Range.take _ st.range) = taken
        have hturn : s.now ≤ (taken.turn p s).2.now :=
          Nat.le_of_eq (now_turnSteps taken.fuel turnSize taken s).symm
        split
        · split
          · exact Nat.le_trans hturn (Nat.le_trans (now_le_waitUntil _ _) (ih _ _ _ _))
          · exact hturn
        · exact Nat.le_trans hturn (ih _ _ _ _)

/-- The steps of a turn are such steps. -/
theorem Prompt.turnSteps (h : Prompt p st₀ s₀ n st s) (hst₀ : st₀.Sound)
    (hearly : s.now < st₀.deadline) (fuel budget : Nat) :
    ∃ m, n ≤ m ∧ Prompt p st₀ s₀ m (st.turnSteps p fuel budget s).1
      (st.turnSteps p fuel budget s).2 := by
  induction fuel generalizing budget st s n with
  | zero => exact ⟨n, Nat.le_refl n, h⟩
  | succ fuel ih =>
      unfold Stream.turnSteps
      split
      · exact ⟨n, Nat.le_refl n, h⟩
      · split
        · exact ⟨n, Nat.le_refl n, h⟩
        next st' s' hstep =>
          have hdeadline : s.now < st.deadline := by rwa [(h.unhurried.kept hst₀).deadline]
          obtain ⟨m, hm, hruns⟩ := ih (h.produce hdeadline hstep) (by rwa [now_step? hstep])
            (if st.isSending then budget - 1 else budget)
          exact ⟨m, Nat.le_of_succ_le hm, hruns⟩

/-- A turn begins with a step of the producer, if it does not have to wait. -/
theorem turn_of_step? (hstep : st.step? p s = some (st', s')) : ∃ fuel budget,
    st.turn p s = st'.turnSteps p fuel budget s' := by
  have hfuel : st.fuel = (8 * (st.range.span + 1) + 7) + 1 := by
    rw [fuel]
    omega
  refine ⟨8 * (st.range.span + 1) + 7, if st.isSending then turnSize - 1 else turnSize, ?_⟩
  rw [Stream.turn, hfuel, Stream.turnSteps, hstep]
  simp [turnSize]

/-- A turn of a producer that does not have to wait takes one step at least. -/
theorem Prompt.turn (h : Prompt p st₀ s₀ n st s) (hst₀ : st₀.Sound)
    (hearly : s.now < st₀.deadline) :
    ∃ m, n ≤ m ∧ ((st.step? p s).isSome = true → n < m) ∧
      Prompt p st₀ s₀ m (st.turn p s).1 (st.turn p s).2 := by
  cases hstep : st.step? p s with
  | none =>
      obtain ⟨m, hm, hruns⟩ := h.turnSteps hst₀ hearly st.fuel turnSize
      exact ⟨m, hm, fun hsome => Bool.noConfusion hsome, hruns⟩
  | some next =>
      have hdeadline : s.now < st.deadline := by rwa [(h.unhurried.kept hst₀).deadline]
      obtain ⟨fuel, budget, hturn⟩ := turn_of_step? hstep
      obtain ⟨m, hm, hruns⟩ := (h.produce hdeadline hstep).turnSteps hst₀
        (by rwa [now_step? hstep]) fuel budget
      rw [hturn]
      exact ⟨m, Nat.le_of_succ_le hm, fun _ => hm, hruns⟩

/-- Something can be done with the stream: an item waits for the reader, or the producer does not
have to wait. -/
def Goes (p : NodeAccess ν) (st : Stream ν) (s : Backend ν) : Prop :=
  st.range.buffer ≠ [] ∨ (st.step? p s).isSome = true

theorem goes_of_not_isIdle (h : ¬ st.isIdle p s = true) : Goes p st s := by
  unfold Goes
  cases hbuffer : st.range.buffer with
  | nil =>
      right
      simpa [isIdle, hbuffer, Option.isSome_iff_ne_none] using h
  | cons item rest => exact Or.inl (List.cons_ne_nil _ _)

/-- When nobody can do anything, the stream is over, or it wakes up when its fetch is ready or the
deadline comes. -/
theorem over_or_wakes_of_isIdle (hst : st.Sound) (h : st.isIdle p s = true) :
    (st.wakeTime? = none ∧ st.range.isEnded = true ∧ st.range.buffer = []) ∨
      ∃ f, st.pending = some f ∧ st.wakeTime? = some (min f.ready st.deadline) := by
  simp only [isIdle, Bool.and_eq_true, List.isEmpty_iff, Option.isNone_iff_eq_none] at h
  obtain ⟨hbuffer, hstep⟩ := h
  rcases isEnded_or_waits_of_step?_eq_none hst hbuffer hstep with hended | ⟨f, hpending, -⟩
  · refine Or.inl ⟨?_, hended, hbuffer⟩
    unfold Range.isEnded at hended
    split at hended
    next hproducer =>
      have hfree := hst.pending_eq_none (by rw [hproducer]; rfl)
      simp only [wakeTime?, hfree, hproducer]
    · cases hended
  · exact Or.inr ⟨f, hpending, by simp only [wakeTime?, hpending]⟩

/-- What the reader takes in a round stays with it. -/
theorem taken_length_turn {j : Nat} (hj : j ≤ st.range.buffer.length) :
    st.range.taken.length + j ≤
      ((st.withRange (Nat.repeat Range.take j st.range)).turn p s).1.range.taken.length := by
  have htaken : (Nat.repeat Range.take j st.range).taken.length ≤ _ :=
    (reaches_turn p (st.withRange (Nat.repeat Range.take j st.range)) s).isPrefix_taken.length_le
  have hlength := length_repeat_take j st.range
  omega

/-- In a round the reader takes `j` of the items that wait for it, and then the producer has its
turn. If something can be done, there is one step at least. -/
theorem Prompt.round (h : Prompt p st₀ s₀ n st s) (hst₀ : st₀.Sound)
    (hearly : s.now < st₀.deadline) (hgoes : Goes p st s) {j : Nat}
    (hj : j ≤ st.range.buffer.length) (htakes : st.range.buffer ≠ [] → 0 < j) :
    ∃ m, n < m ∧
      Prompt p st₀ s₀ m ((st.withRange (Nat.repeat Range.take j st.range)).turn p s).1
        ((st.withRange (Nat.repeat Range.take j st.range)).turn p s).2 ∧
      st.range.taken.length + j ≤
        ((st.withRange (Nat.repeat Range.take j st.range)).turn p s).1.range.taken.length := by
  obtain ⟨m, hm, hworks, hruns⟩ := (h.repeat_take hj).turn hst₀ hearly
  refine ⟨m, ?_, hruns, taken_length_turn hj⟩
  rcases Nat.eq_zero_or_pos j with rfl | hpos
  · -- nothing waits for the reader, so the step is the producer's
    exact hworks (hgoes.resolve_left fun hbuffer => Nat.lt_irrefl 0 (htakes hbuffer))
  · omega

/-- A reader that takes all items gets to the end of the stream, if either the deadline has not come
by then, or it comes after the time at which all will be there. -/
theorem Prompt.readTurns (h : Prompt p st₀ s₀ n st s) (hst₀ : st₀.Sound)
    (fuel budget k : Nat) (hgoes : Goes p st s) (hfuel : st₀.left < n + fuel)
    (hbudget : 0 < budget)
    (hk : (st₀.whole p s₀.cache s₀.moment).1.length < st.range.taken.length + k)
    (hearly : (st.readTurns p fuel budget k s).2.now < st₀.deadline ∨
      (st₀.whole p s₀.cache s₀.moment).2.2 < st₀.deadline) :
    ∃ m, Prompt p st₀ s₀ m (st.readTurns p fuel budget k s).1
        (st.readTurns p fuel budget k s).2 ∧
      (st.readTurns p fuel budget k s).1.range.isEnded = true ∧
      (st.readTurns p fuel budget k s).1.range.buffer = [] := by
  induction fuel generalizing n st s budget k with
  | zero =>
      have hbounded := (h.unhurried.kept hst₀).bounded
      omega
  | succ fuel ih =>
      have hnow : s.now < st₀.deadline := by
        rcases hearly with hearly | hearly
        · exact Nat.lt_of_le_of_lt (now_le_readTurns _ _ _ _ _) hearly
        · rw [← h.whole_eq hst₀] at hearly
          exact Nat.lt_of_le_of_lt ((st.clocked_whole p s₀.cache).lasts s.moment) hearly
      have hlength := (h.unhurried.kept hst₀).length_le
      unfold Stream.readTurns at hearly ⊢
      simp only at hearly ⊢
      generalize hj : min (min budget k) st.range.buffer.length = j at hearly ⊢
      -- the reader wants more than there is, so it goes on after what it takes
      rw [if_neg (by omega)] at hearly ⊢
      have htakes : st.range.buffer ≠ [] → 0 < j := by
        rw [← List.length_pos_iff]
        omega
      obtain ⟨m, hm, hruns, hmore⟩ := h.round hst₀ hnow hgoes (j := j) (by omega) htakes
      generalize (st.withRange (Nat.repeat Range.take j st.range)).turn p s = next
        at hearly hruns hmore ⊢
      have hk' : (st₀.whole p s₀.cache s₀.moment).1.length <
          next.1.range.taken.length + (k - j) := by omega
      have hfuel' : st₀.left < m + fuel := by omega
      have hkept := hruns.unhurried.kept hst₀
      by_cases hidle : next.1.isIdle p next.2 = true
      · rw [if_pos hidle] at hearly ⊢
        rcases over_or_wakes_of_isIdle hkept.sound hidle with ⟨hwake, hover⟩ | ⟨f, hpending, hwake⟩
        · simp only [hwake]
          exact ⟨m, hruns, hover⟩
        · simp only [hwake] at hearly ⊢
          have hready : f.ready < next.1.deadline := by
            rw [hkept.deadline] at hearly ⊢
            rcases hearly with hearly | hearly
            · have hwaited := Nat.lt_of_le_of_lt
                (Nat.le_trans (le_now_waitUntil _ _) (now_le_readTurns _ _ _ _ _)) hearly
              omega
            · rw [← hruns.whole_eq hst₀] at hearly
              exact Nat.lt_of_le_of_lt (ready_le_whole hkept.sound hpending) hearly
          rw [Nat.min_eq_left (Nat.le_of_lt hready)] at hearly ⊢
          have hgoes' : Goes p next.1 (next.2.waitUntil f.ready) :=
            Or.inr (isSome_step?_of_ready hkept.sound hpending (le_now_waitUntil _ _))
          exact ih (hruns.wait hpending) _ _ hgoes' hfuel' (by decide) hk' hearly
      · rw [if_neg hidle] at hearly ⊢
        exact ih hruns _ _ (goes_of_not_isIdle hidle) hfuel' (by decide) hk' hearly

variable {capacity start stop deadline : Nat}

/-- What a range comes to is settled from the start: it is that of the reads of its heights, one
after the other. -/
theorem whole_openStream_eq (p : NodeAccess ν) (capacity start stop deadline : Nat)
    (s : Backend ν) :
    (openStream capacity start stop deadline).whole p s.cache s.moment =
      ((s.readEach p (heightsBetween start stop)).1,
        (s.readEach p (heightsBetween start stop)).2.moment) := by
  rw [whole_openStream, Range.heights_begin, readEach_eq]

/-- A range that is read to its end before the deadline is read by such steps. -/
theorem exists_prompt_readRange (hcapacity : 0 < capacity) (start stop deadline : Nat)
    (hearly : (s.readRange p capacity start stop deadline).2.now < deadline ∨
      (s.readEach p (heightsBetween start stop)).2.now < deadline) :
    ∃ m st, Prompt p (openStream capacity start stop deadline) s m st
        (s.readRange p capacity start stop deadline).2 ∧
      st.range.taken = (s.readRange p capacity start stop deadline).1 ∧
      st.range.isEnded = true ∧ st.range.buffer = [] := by
  have hsound := sound_openStream (ν := ν) hcapacity start stop deadline
  have hwhole := whole_openStream_eq p capacity start stop deadline s
  have hlength := p.length_readAll_le s.cache (Range.begin capacity start stop).heights s.moment
  rw [Range.length_heights] at hlength
  have hfuel : (openStream capacity start stop deadline : Stream ν).left <
      0 + 16 * ((Range.begin capacity start stop).span + 3) := by
    rw [left_openStream, Range.length_heights]
    omega
  have hcount : ((openStream capacity start stop deadline).whole p s.cache s.moment).1.length <
      0 + ((Range.begin capacity start stop).span + 3) := by
    rw [whole_openStream]
    omega
  have hsoon : (s.readRange p capacity start stop deadline).2.now < deadline ∨
      ((openStream capacity start stop deadline).whole p s.cache s.moment).2.2 < deadline := by
    rw [hwhole]
    exact hearly
  obtain ⟨m, hruns, hended, hbuffer⟩ := Prompt.begin.readTurns hsound _ turnSize _ (Or.inr rfl)
    hfuel (by decide) hcount hsoon
  exact ⟨m, _, hruns, rfl, hended, hbuffer⟩

/-- Before the deadline a range comes to what single reads come to one after the other, and at the
same time, whatever the node answers. -/
theorem readRange_eq_readEach (hcapacity : 0 < capacity) (start stop deadline : Nat)
    (hearly : (s.readRange p capacity start stop deadline).2.now < deadline ∨
      (s.readEach p (heightsBetween start stop)).2.now < deadline) :
    ((s.readRange p capacity start stop deadline).1,
        (s.readRange p capacity start stop deadline).2.moment) =
      ((s.readEach p (heightsBetween start stop)).1,
        (s.readEach p (heightsBetween start stop)).2.moment) := by
  obtain ⟨m, st, hruns, htaken, hended, hbuffer⟩ :=
    exists_prompt_readRange hcapacity start stop deadline hearly
  rw [← htaken, ← whole_openStream_eq p capacity start stop deadline,
    ← hruns.whole_eq (sound_openStream hcapacity start stop deadline),
    whole_of_isEnded hended hbuffer]

/-- The items are those of single reads at the heights of a range, up to the first error, and the
node was called, in this order and once each, for those of the heights that were read at which a
read asks it. -/
structure ReadsSingly (p : NodeAccess ν) (start stop : Nat) (s : Backend (ν × List Nat))
    (got : List Item) (s' : Backend (ν × List Nat)) : Prop where
  items : got = Gateway.upToError
    ((heightsBetween start stop).map fun h => (s.readBlock p.logging h).1)
  calls : s'.world.2 =
    s.world.2 ++ ((heightsBetween start stop).take got.length).filter s.cache.asksNode
  once : (((heightsBetween start stop).take got.length).filter s.cache.asksNode).Nodup

/-- After `n` steps the reader has got nothing but items of the single reads, in order, and at the
end all of them. There are not many more steps, and until the end there is a next one, at the latest
when the node has answered. -/
structure ReadsOn (p : NodeAccess ν) (start stop : Nat) (s : Backend (ν × List Nat)) (n : Nat)
    (st : Stream (ν × List Nat)) (s' : Backend (ν × List Nat)) : Prop where
  items : st.range.taken ++ st.range.buffer <+: Gateway.upToError
    ((heightsBetween start stop).map fun h => (s.readBlock p.logging h).1)
  finished : st.range.isEnded = true → st.range.buffer = [] →
    ReadsSingly p start stop s st.range.taken s'
  goes_on : (st.range.isEnded = true ∧ st.range.buffer = []) ∨ Goes p.logging st s' ∨
    ∃ f, st.pending = some f ∧ Goes p.logging st (s'.waitUntil f.ready)
  bounded : n ≤ 9 * (heightsBetween start stop).length + 1

theorem goes_on_of_sound (hst : st.Sound) :
    (st.range.isEnded = true ∧ st.range.buffer = []) ∨ Goes p st s ∨
      ∃ f, st.pending = some f ∧ Goes p st (s.waitUntil f.ready) := by
  by_cases hgoes : Goes p st s
  · exact Or.inr (Or.inl hgoes)
  · simp only [Goes, not_or, Classical.not_not, Bool.not_eq_true, Option.isSome_eq_false_iff,
      Option.isNone_iff_eq_none] at hgoes
    rcases isEnded_or_waits_of_step?_eq_none hst hgoes.1 hgoes.2 with hended | ⟨f, hpending, -⟩
    · exact Or.inl ⟨hended, hgoes.1⟩
    · exact Or.inr (Or.inr ⟨f, hpending,
        Or.inr (isSome_step?_of_ready hst hpending (le_now_waitUntil _ _))⟩)

/-- What single reads come to one after the other is what each of them gives, if the node answers
from a source. -/
theorem readsSingly_of_readEach {s s' : Backend (ν × List Nat)} {got : List Item}
    (hp : p.Answers source)
    (hgot : got = (s.readEach p.logging (heightsBetween start stop)).1)
    (hworld : s'.world = (s.readEach p.logging (heightsBetween start stop)).2.world) :
    ReadsSingly p start stop s got s' := by
  have hitems := hp.logging.readAll_eq s (heightsBetween start stop) s.moment
  have hcalls := p.log_readAll s.cache (heightsBetween start stop) s.moment
  have hnodup := (Range.begin 1 start stop).nodup_heights
  rw [← readEach_eq] at hitems hcalls
  rw [Range.heights_begin] at hnodup
  subst hgot
  exact {
    items := hitems
    calls := by
      rw [hworld]
      exact hcalls
    once := hnodup.sublist (List.filter_sublist.trans (List.take_sublist _ _)) }

theorem readsOn_of_unhurried {s s' : Backend (ν × List Nat)} {st : Stream (ν × List Nat)}
    (hp : p.Answers source) (hcapacity : 0 < capacity)
    (h : Unhurried p.logging (openStream capacity start stop deadline) s n st s') :
    ReadsOn p start stop s n st s' := by
  have hkept := h.kept (sound_openStream hcapacity start stop deadline)
  have hwhole := hkept.whole
  rw [whole_openStream_eq] at hwhole
  obtain ⟨hitems, hworld⟩ := Prod.mk.inj hwhole
  have hbounded := hkept.bounded
  rw [left_openStream, Range.heights_begin] at hbounded
  exact {
    items := by
      rw [← (readsSingly_of_readEach hp rfl rfl).items, ← hitems]
      exact List.prefix_append _ _
    finished := by
      intro hended hbuffer
      rw [whole_of_isEnded hended hbuffer] at hitems hworld
      exact readsSingly_of_readEach hp hitems hworld
    goes_on := goes_on_of_sound hkept.sound
    bounded := by omega }

/-- A range is read as its heights are read one by one, by every order of steps of the producer and
of a reader that keeps reading, as long as the cache stays as it is, the node answers from a source,
and the deadline does not come. If producer and reader take turns, it does not come before the end
exactly if it would not come before the end of single reads, which is at the same time. -/
theorem readsOn_and_readsSingly (hp : p.Answers source) (hcapacity : 0 < capacity)
    (start stop deadline : Nat) (s : Backend (ν × List Nat)) :
    (∀ n st s', Unhurried p.logging (openStream capacity start stop deadline) s n st s' →
        ReadsOn p start stop s n st s') ∧
      ((s.readRange p.logging capacity start stop deadline).2.now < deadline ↔
        (s.readEach p.logging (heightsBetween start stop)).2.now < deadline) ∧
      ((s.readEach p.logging (heightsBetween start stop)).2.now < deadline →
        ReadsSingly p start stop s (s.readRange p.logging capacity start stop deadline).1
            (s.readRange p.logging capacity start stop deadline).2 ∧
          (s.readRange p.logging capacity start stop deadline).2.now =
            (s.readEach p.logging (heightsBetween start stop)).2.now) := by
  have hsame := readRange_eq_readEach (p := p.logging) (s := s) hcapacity start stop deadline
  refine ⟨fun n st s' h => readsOn_of_unhurried hp hcapacity h, ?_, fun hearly => ?_⟩
  · constructor
    · intro hearly
      obtain ⟨-, hmoment⟩ := Prod.mk.inj (hsame (Or.inl hearly))
      rwa [← (Prod.mk.inj hmoment).2]
    · intro hearly
      obtain ⟨-, hmoment⟩ := Prod.mk.inj (hsame (Or.inr hearly))
      rwa [(Prod.mk.inj hmoment).2]
  · obtain ⟨hitems, hmoment⟩ := Prod.mk.inj (hsame (Or.inr hearly))
    obtain ⟨hworld, hnow⟩ := Prod.mk.inj hmoment
    exact ⟨readsSingly_of_readEach hp hitems hworld, hnow⟩

def narrowServer : Backend (Unit × List Nat) :=
  let a := Sample.block 0 7 (Octets.zero 32)
  ⟨((), []), (Cache.empty .standard 1).addAll [(7, a), (8, Sample.block 0 8 a.hash)], {}, 0⟩

def loneSeven (height : Nat) : FetchReply :=
  .ok (if height = 7 then some (Sample.block 0 7 (Octets.zero 32)) else none)

def slowNode : NodeAccess Unit where
  call _ _ w := ((0, .error (.transport "no calls")), w)
  fetch height w := ((10, fun w => ((20, loneSeven height), w)), w)

/-- Of the heights 7 to 10 the first one is fetched from the node, the next one is in the cache, and
the one after that is above its last height. -/
theorem readsOn_and_readsSingly_of_narrowServer :
    slowNode.Answers loneSeven ∧
      (narrowServer.readEach slowNode.logging (heightsBetween 7 10)).2.now < 50 ∧
      (narrowServer.readRange slowNode.logging 1 7 10 50).2.now = 30 ∧
      (narrowServer.readRange slowNode.logging 1 7 10 50).2.world.2 = [7] ∧
      (narrowServer.readRange slowNode.logging 1 7 10 50).1.length = 3 ∧
      ReadsSingly slowNode 7 10 narrowServer
        (narrowServer.readRange slowNode.logging 1 7 10 50).1
        (narrowServer.readRange slowNode.logging 1 7 10 50).2 ∧
      ∃ n st s', Unhurried slowNode.logging (openStream 1 7 10 50) narrowServer n st s' ∧
        st.range.isEnded = true ∧ ReadsOn slowNode 7 10 narrowServer n st s' := by
  have hanswers : slowNode.Answers loneSeven := fun _ _ => rfl
  have hearly : (narrowServer.readEach slowNode.logging (heightsBetween 7 10)).2.now < 50 := by
    decide +kernel
  obtain ⟨hsteps, -, hdrain⟩ :=
    readsOn_and_readsSingly hanswers Nat.one_pos 7 10 50 narrowServer
  obtain ⟨n, st, hruns, -, hended, -⟩ :=
    exists_prompt_readRange Nat.one_pos 7 10 50 (Or.inr hearly)
  exact ⟨hanswers, hearly, by decide +kernel, by decide +kernel, by decide +kernel,
    (hdrain hearly).1, n, st, _, hruns.unhurried, hended, hsteps _ _ _ hruns.unhurried⟩

end Stream
end Backend

end LightServer
