import LightServer.Proofs.Ingest.Source
import LightServer.Proofs.Retrieval.Client

/-!
# What is still to come

As long as the cache stays as it is and the deadline has not come, all that a stream
will give is settled from the start. `NodeAccess.readAll` reads heights one after the
other, as single reads do, up to the first error, and `Stream.forecast` is what a
stream in any of its states is still to send, with the moment at which it will be
through if nobody dawdles. A step of the producer only moves the next item of the
forecast on, so that what the reader has, what waits for it, and what is to come are
the same at any time.
-/

namespace LightServer

open LightServer.Retrieval

variable {ν : Type} {α : Type}

abbrev Moment (ν : Type) := ν × Nat

def timeless (x : α × Moment ν) : α × ν := (x.1, x.2.1)

def Fetch.conclude : Fetch ν → Moment ν → FetchReply × Moment ν
  | waiting ready ask, m => ((ask m.1).1.2, ((ask m.1).2, max m.2 ready + (ask m.1).1.1))
  | asked ready reply, m => (reply, (m.1, max m.2 ready))

namespace NodeAccess

def reply (p : NodeAccess ν) (height : Nat) (m : Moment ν) : FetchReply × Moment ν :=
  (Fetch.waiting (m.2 + (p.fetch height m.1).1.1) (p.fetch height m.1).1.2).conclude
    ((p.fetch height m.1).2, m.2)

/-- What a read comes to that has got to a phase, over a cache that stays as it is. -/
def conclude (p : NodeAccess ν) (c : Cache) (height : Nat) (phase : ReadPhase) (m : Moment ν) :
    Item × Moment ν :=
  match (phase.look height c).look height c with
  | .done item => (item, m)
  | _ => (settle height (p.reply height m).1, (p.reply height m).2)

def andThen (item : Item) (next : Moment ν → List Item × Moment ν) (m : Moment ν) :
    List Item × Moment ν :=
  match item with
  | .ok b => (.ok b :: (next m).1, (next m).2)
  | .error e => ([.error e], m)

/-- The items of single reads, one after the other, up to the first error. -/
def readAll (p : NodeAccess ν) (c : Cache) : List Nat → Moment ν → List Item × Moment ν
  | [], m => ([], m)
  | h :: hs, m =>
      andThen (p.conclude c h .looking m).1 (readAll p c hs) (p.conclude c h .looking m).2

end NodeAccess

/-- After two looks there is nothing more to look for. -/
theorem Retrieval.ReadPhase.look_look_look (height : Nat) (c : Cache) (phase : ReadPhase) :
    ((phase.look height c).look height c).look height c = (phase.look height c).look height c := by
  cases phase with
  | looking =>
      cases hfirst : firstLook height c with
      | some item => simp only [ReadPhase.look, hfirst]
      | none =>
          cases hsecond : secondLook height c <;> simp only [ReadPhase.look, hfirst, hsecond]
  | checking =>
      cases hsecond : secondLook height c <;> simp only [ReadPhase.look, hsecond]
  | asking | done => rfl

namespace NodeAccess

variable (p : NodeAccess ν) (c : Cache) (height : Nat) (m : Moment ν)

theorem conclude_look (phase : ReadPhase) :
    p.conclude c height (phase.look height c) m = p.conclude c height phase m := by
  unfold conclude
  rw [ReadPhase.look_look_look]

@[simp] theorem conclude_asking :
    p.conclude c height .asking m =
      (settle height (p.reply height m).1, (p.reply height m).2) := rfl

@[simp] theorem conclude_done (item : Item) :
    p.conclude c height (.done item) m = (item, m) := rfl

end NodeAccess

/-- The time has no part in what comes out, and does not go back. -/
structure Clocked (f : Moment ν → α × Moment ν) : Prop where
  untimed : ∀ w t t', timeless (f (w, t)) = timeless (f (w, t'))
  lasts : ∀ m, m.2 ≤ (f m).2.2

section Clocked

variable {p : NodeAccess ν} {c : Cache} {height : Nat}

theorem clocked_pure (a : α) : Clocked fun m : Moment ν => (a, m) :=
  ⟨fun _ _ _ => rfl, fun _ => Nat.le_refl _⟩

theorem Clocked.map {β : Type} {f : Moment ν → α × Moment ν} (hf : Clocked f) (g : α → β) :
    Clocked fun m => (g (f m).1, (f m).2) where
  untimed w t t' := by
    obtain ⟨hvalue, hworld⟩ := Prod.mk.inj (hf.untimed w t t')
    exact Prod.ext (congrArg g hvalue) hworld
  lasts := hf.lasts

theorem Clocked.andThen {read : Moment ν → Item × Moment ν}
    {next : Moment ν → List Item × Moment ν} (hread : Clocked read) (hnext : Clocked next) :
    Clocked fun m => NodeAccess.andThen (read m).1 next (read m).2 where
  untimed w t t' := by
    obtain ⟨hitem, hworld⟩ := Prod.mk.inj (hread.untimed w t t')
    have hmoment : (read (w, t)).2 = ((read (w, t')).2.1, (read (w, t)).2.2) := Prod.ext hworld rfl
    rw [hitem, hmoment]
    cases (read (w, t')).1 with
    | error e => rfl
    | ok b =>
        obtain ⟨hitems, hlater⟩ :=
          Prod.mk.inj (hnext.untimed (read (w, t')).2.1 (read (w, t)).2.2 (read (w, t')).2.2)
        exact Prod.ext (congrArg (List.cons (Except.ok b : Item)) hitems) hlater
  lasts m := by
    cases (read m).1 with
    | error e => exact hread.lasts m
    | ok b => exact Nat.le_trans (hread.lasts m) (hnext.lasts _)

theorem Fetch.clocked_conclude (f : Fetch ν) : Clocked f.conclude := by
  cases f with
  | waiting ready ask =>
      exact ⟨fun _ _ _ => rfl, fun m => Nat.le_trans (Nat.le_max_left _ _) (Nat.le_add_right _ _)⟩
  | asked ready reply => exact ⟨fun _ _ _ => rfl, fun m => Nat.le_max_left _ _⟩

namespace NodeAccess

theorem clocked_reply (p : NodeAccess ν) (height : Nat) : Clocked (p.reply height) :=
  ⟨fun _ _ _ => rfl, fun m => (Fetch.waiting _ (p.fetch height m.1).1.2).clocked_conclude.lasts
    ((p.fetch height m.1).2, m.2)⟩

theorem clocked_conclude (p : NodeAccess ν) (c : Cache) (height : Nat) (phase : ReadPhase) :
    Clocked (p.conclude c height phase) := by
  have hreply := (p.clocked_reply height).map (settle height)
  unfold conclude
  cases (phase.look height c).look height c with
  | done item => exact clocked_pure item
  | _ => exact hreply

theorem clocked_readAll (p : NodeAccess ν) (c : Cache) (hs : List Nat) :
    Clocked (p.readAll c hs) := by
  induction hs with
  | nil => exact clocked_pure []
  | cons h hs ih => exact (p.clocked_conclude c h .looking).andThen ih

end NodeAccess

end Clocked

namespace Backend

def moment (s : Backend ν) : Moment ν := (s.world, s.now)

theorem fetch_eq (p : NodeAccess ν) (height : Nat) (s : Backend ν) :
    (s.fetch p height).1 = (p.reply height s.moment).1 ∧
      (s.fetch p height).2.moment = (p.reply height s.moment).2 :=
  ⟨rfl, Prod.ext rfl (Nat.max_eq_right (Nat.le_add_right _ _))⟩

/-- A single read comes to what the phases of a read come to. -/
theorem readBlock_eq (p : NodeAccess ν) (height : Nat) (s : Backend ν) :
    (s.readBlock p height).1 = (p.conclude s.cache height .looking s.moment).1 ∧
      (s.readBlock p height).2.moment = (p.conclude s.cache height .looking s.moment).2 ∧
      (s.readBlock p height).2.cache = s.cache := by
  obtain ⟨hreply, hmoment⟩ := s.fetch_eq p height
  unfold readBlock NodeAccess.conclude ReadPhase.lookTwice
  rcases (ReadPhase.looking.look height s.cache).look height s.cache with _ | _ | _ | (e | b)
  -- a read that is done has its item, any other one gets it from the node
  all_goals try exact ⟨rfl, rfl, rfl⟩
  all_goals
    simp only [hreply]
    cases settle height (p.reply height s.moment).1 <;> exact ⟨rfl, hmoment, rfl⟩

namespace Stream

/-- What a stream is still to send, over a cache that stays as it is, with the moment at which it
will have sent that. -/
def forecast (p : NodeAccess ν) (c : Cache) (st : Stream ν) (m : Moment ν) :
    List Item × Moment ν :=
  let later := p.readAll c (st.range.heights.drop (st.range.index + 1))
  match st.range.producer with
  | .next => p.readAll c (st.range.heights.drop st.range.index) m
  | .reading height phase =>
      match st.pending with
      | some f => NodeAccess.andThen (settle height (f.conclude m).1) later (f.conclude m).2
      | none =>
          NodeAccess.andThen (p.conclude c height phase m).1 later (p.conclude c height phase m).2
  | .sending _ item => NodeAccess.andThen item later m
  | .ended _ => ([], m)

theorem clocked_forecast (p : NodeAccess ν) (c : Cache) (st : Stream ν) :
    Clocked (st.forecast p c) := by
  have hlater := p.clocked_readAll c (st.range.heights.drop (st.range.index + 1))
  unfold forecast
  cases st.range.producer with
  | next => exact p.clocked_readAll c _
  | reading height phase =>
      cases st.pending with
      | some f => exact (f.clocked_conclude.map (settle height)).andThen hlater
      | none => exact (p.clocked_conclude c height phase).andThen hlater
  | sending height item => exact (clocked_pure item).andThen hlater
  | ended outcome => exact clocked_pure []

/-- A bound on the steps that are left for the item that is being read: the rest of its reading, its
way to the buffer, and the one to the reader. -/
def readLeft : ReadPhase → Option (Fetch ν) → Nat
  | _, some (.waiting _ _) => 6
  | _, some (.asked _ _) => 5
  | .looking, none => 9
  | .checking, none => 8
  | .asking, none => 7
  | .done _, none => 4

def left (st : Stream ν) : Nat :=
  st.range.buffer.length +
    match st.range.producer with
    | .next => 9 * (st.range.heights.length - st.range.index) + 1
    | .reading _ phase =>
        9 * (st.range.heights.length - (st.range.index + 1)) + readLeft phase st.pending
    | .sending _ _ => 9 * (st.range.heights.length - (st.range.index + 1)) + 3
    | .ended _ => 0

/-- The reader has not closed the stream, its buffer has room for an item, and a fetch is under way
only for a height that the node is asked for. -/
structure Sound (st : Stream ν) : Prop where
  opened : st.range.closed = false
  capacity_pos : 0 < st.range.capacity
  asking : ∀ f, st.pending = some f → ∃ height, st.range.producer = .reading height .asking

/-- All that the reader has taken, that waits for it, and that is still to come. -/
def whole (p : NodeAccess ν) (c : Cache) (st : Stream ν) (m : Moment ν) : List Item × Moment ν :=
  (st.range.taken ++ st.range.buffer ++ (st.forecast p c m).1, (st.forecast p c m).2)

theorem clocked_whole (p : NodeAccess ν) (c : Cache) (st : Stream ν) : Clocked (st.whole p c) :=
  (st.clocked_forecast p c).map _

/-- A step that takes the stream on to `st'`, and the moment to `m'`: nothing is lost and nothing is
added of what there is for the reader, none of it comes later, and one step less is left. -/
structure Carries (p : NodeAccess ν) (c : Cache) (st : Stream ν) (m : Moment ν) (st' : Stream ν)
    (m' : Moment ν) : Prop where
  sound : st'.Sound
  whole : st'.whole p c m' = st.whole p c m
  left : st'.left < st.left
  deadline : st'.deadline = st.deadline

variable {p : NodeAccess ν} {c : Cache} {st st' : Stream ν} {s s' : Backend ν} {m : Moment ν}
  {height : Nat} {phase : ReadPhase} {item : Item}

theorem Sound.of_pending_eq_none (hopened : st.range.closed = false)
    (hcapacity : 0 < st.range.capacity) (hfree : st.pending = none) : st.Sound where
  opened := hopened
  capacity_pos := hcapacity
  asking := by
    intro f hf
    rw [hfree] at hf
    cases hf

theorem sound_openStream {capacity : Nat} (hcapacity : 0 < capacity) (start stop deadline : Nat) :
    (openStream capacity start stop deadline : Stream ν).Sound :=
  .of_pending_eq_none rfl hcapacity rfl

theorem left_openStream (capacity start stop deadline : Nat) :
    (openStream capacity start stop deadline : Stream ν).left =
      9 * (Range.begin capacity start stop).heights.length + 1 :=
  Nat.zero_add _

theorem whole_openStream (p : NodeAccess ν) (c : Cache) (capacity start stop deadline : Nat)
    (m : Moment ν) :
    (openStream capacity start stop deadline).whole p c m =
      p.readAll c (Range.begin capacity start stop).heights m := rfl

/-- No fetch is under way for a producer that does not ask the node. -/
theorem Sound.pending_eq_none (hst : st.Sound) (hasks : st.range.producer.asks? = none) :
    st.pending = none := by
  rw [Option.eq_none_iff_forall_ne_some]
  intro f hf
  obtain ⟨height, hasking⟩ := hst.asking f hf
  rw [hasking] at hasks
  cases hasks

/-- The producer goes on to the next state, while nothing else of the stream is different. -/
theorem Carries.of_producer (hst : st.Sound) {producer : Producer}
    (hfree : st.pending = none)
    (hforecast : (st.withRange { st.range with producer }).forecast p c m = st.forecast p c m)
    (hleft : (st.withRange { st.range with producer }).left < st.left) :
    Carries p c st m (st.withRange { st.range with producer }) m where
  sound := .of_pending_eq_none hst.opened hst.capacity_pos hfree
  whole := by
    unfold Stream.whole
    rw [hforecast]
    rfl
  left := hleft
  deadline := rfl

theorem carries_proceed (hst : st.Sound) (hproducer : st.range.producer = .next) :
    Carries p c st m (st.withRange st.range.proceed) m := by
  have hfree := hst.pending_eq_none (by rw [hproducer]; rfl)
  cases hheight : st.range.heights[st.range.index]? with
  | none =>
      have hlast : st.range.heights.drop st.range.index = [] :=
        List.drop_eq_nil_of_le (List.getElem?_eq_none_iff.mp hheight)
      have hproceed : st.range.proceed = { st.range with producer := .ended .complete } := by
        simp only [Range.proceed, hproducer, Range.heightAt?_eq, hheight, Range.finish]
      rw [hproceed]
      refine Carries.of_producer hst hfree ?_ ?_
      · simp only [forecast, withRange, hproducer, hlast, NodeAccess.readAll]
      · simp only [left, withRange, hproducer]
        omega
  | some height =>
      obtain ⟨hlt, hget⟩ := List.getElem?_eq_some_iff.mp hheight
      have hdrop : st.range.heights.drop st.range.index =
          height :: st.range.heights.drop (st.range.index + 1) := by
        rw [List.drop_eq_getElem_cons hlt, hget]
      have hproceed : st.range.proceed =
          { st.range with producer := .reading height .looking } := by
        simp only [Range.proceed, hproducer, Range.heightAt?_eq, hheight, hst.opened,
          Bool.false_eq_true, if_false]
      rw [hproceed]
      refine Carries.of_producer hst hfree ?_ ?_
      · simp only [forecast, withRange, hproducer, hfree, hdrop, NodeAccess.readAll]
        rfl
      · simp only [left, withRange, hproducer, hfree, readLeft]
        change _ + (9 * (st.range.heights.length - (st.range.index + 1)) + 9) < _
        omega

theorem carries_look (hst : st.Sound) (hproducer : st.range.producer = .reading height phase)
    (hlooks : phase = .looking ∨ phase = .checking) :
    Carries p c st m (st.withRange (st.range.look c)) m := by
  have hasks : st.range.producer.asks? = none := by
    rw [hproducer]
    rcases hlooks with rfl | rfl <;> rfl
  have hfree := hst.pending_eq_none hasks
  have hlook : st.range.look c =
      { st.range with producer := .reading height (phase.look height c) } := by
    simp only [Range.look, hproducer]
  have hless : readLeft (phase.look height c) (none : Option (Fetch ν)) <
      readLeft phase (none : Option (Fetch ν)) := by
    rcases hlooks with rfl | rfl <;> simp only [ReadPhase.look] <;> split <;> simp [readLeft]
  rw [hlook]
  refine Carries.of_producer hst hfree ?_ ?_
  · simp only [forecast, withRange, hproducer, hfree, NodeAccess.conclude_look]
    rfl
  · simp only [left, withRange, hproducer, hfree]
    exact Nat.add_lt_add_left (Nat.add_lt_add_left hless _) _

theorem carries_offer (hst : st.Sound)
    (hproducer : st.range.producer = .reading height (.done item)) :
    Carries p c st m (st.withRange st.range.offer) m := by
  have hfree := hst.pending_eq_none (by rw [hproducer]; rfl)
  have hoffer : st.range.offer = { st.range with producer := .sending height item } := by
    simp only [Range.offer, hproducer]
  rw [hoffer]
  refine Carries.of_producer hst hfree ?_ ?_
  · simp only [forecast, withRange, hproducer, hfree, NodeAccess.conclude_done]
    rfl
  · simp only [left, withRange, hproducer, hfree, readLeft]
    exact Nat.add_lt_add_left (Nat.lt_succ_self _) _

theorem carries_beginFetch (hst : st.Sound) (hfree : st.pending = none)
    (hproducer : st.range.producer = .reading height .asking) :
    Carries p s.cache st s.moment { st with pending := some (s.beginFetch p height).1 }
      (s.beginFetch p height).2.moment where
  sound := ⟨hst.opened, hst.capacity_pos, fun _ _ => ⟨height, hproducer⟩⟩
  whole := by
    have hforecast : forecast p s.cache { st with pending := some (s.beginFetch p height).1 }
        (s.beginFetch p height).2.moment = st.forecast p s.cache s.moment := by
      simp only [forecast, hproducer, hfree, NodeAccess.conclude_asking]
      rfl
    unfold Stream.whole
    rw [hforecast]
  left := by
    simp only [left, hproducer, hfree]
    exact Nat.add_lt_add_left (Nat.lt_succ_self _) _
  deadline := rfl

theorem carries_askNode {ready : Nat} {ask : ν → Delayed FetchReply × ν} (hst : st.Sound)
    (hpending : st.pending = some (.waiting ready ask)) (hready : ready ≤ s.now) :
    Carries p c st s.moment
      { st with pending := some (.asked (s.askNode ask).1.1 (s.askNode ask).1.2) }
      (s.askNode ask).2.moment := by
  obtain ⟨height, hproducer⟩ := hst.asking _ hpending
  have hconclude : (Fetch.asked (s.askNode ask).1.1 (s.askNode ask).1.2).conclude
      (s.askNode ask).2.moment = (Fetch.waiting ready ask).conclude s.moment := by
    have htime : max s.now (s.now + (ask s.world).1.1) =
        max s.now ready + (ask s.world).1.1 := by omega
    exact Prod.ext rfl (Prod.ext rfl htime)
  exact {
    sound := ⟨hst.opened, hst.capacity_pos, fun _ _ => ⟨height, hproducer⟩⟩
    whole := by simp only [Stream.whole, forecast, hproducer, hpending, hconclude]
    left := by
      simp only [left, hproducer, hpending]
      exact Nat.add_lt_add_left (Nat.lt_succ_self _) _
    deadline := rfl }

theorem carries_answer {ready : Nat} {reply : FetchReply} (hst : st.Sound)
    (hpending : st.pending = some (.asked ready reply)) (hready : ready ≤ m.2) :
    Carries p c st m (({ st with pending := none } : Stream ν).withRange (st.range.answer reply))
      m := by
  obtain ⟨height, hproducer⟩ := hst.asking _ hpending
  have hanswer : st.range.answer reply =
      { st.range with producer := .reading height (.done (settle height reply)) } := by
    simp only [Range.answer, hproducer]
  have hconclude : (Fetch.asked ready reply).conclude m = (reply, m) :=
    Prod.ext rfl (Prod.ext rfl (Nat.max_eq_left hready))
  rw [hanswer]
  exact {
    sound := .of_pending_eq_none hst.opened hst.capacity_pos rfl
    whole := by
      simp only [Stream.whole, forecast, withRange, hproducer, hpending, NodeAccess.conclude_done,
        hconclude]
      rfl
    left := by
      simp only [left, withRange, hproducer, hpending]
      exact Nat.add_lt_add_left (Nat.lt_succ_self _) _
    deadline := rfl }

theorem carries_send (hst : st.Sound) (hproducer : st.range.producer = .sending height item)
    (hroom : st.range.hasRoom = true) : Carries p c st m (st.withRange st.range.send) m := by
  have hfree := hst.pending_eq_none (by rw [hproducer]; rfl)
  cases item with
  | ok b =>
      have hsend : st.range.send = { st.range with
          buffer := st.range.buffer ++ [.ok b]
          producer := .next
          index := st.range.index + 1 } := by
        simp only [Range.send, hproducer, hst.opened, hroom, Range.afterSend, Bool.not_false,
          Bool.and_self, if_true]
      rw [hsend]
      exact {
        sound := .of_pending_eq_none hst.opened hst.capacity_pos hfree
        whole := by
          simp only [Stream.whole, forecast, withRange, hproducer, NodeAccess.andThen,
            List.append_assoc, List.singleton_append]
          rfl
        left := by
          simp only [left, withRange, hproducer, List.length_append, List.length_singleton]
          change _ + 1 + (9 * (st.range.heights.length - (st.range.index + 1)) + 1) < _
          omega
        deadline := rfl }
  | error e =>
      have hsend : st.range.send = { st.range with
          buffer := st.range.buffer ++ [.error e]
          producer := .ended .failed } := by
        simp only [Range.send, hproducer, hst.opened, hroom, Range.afterSend, Range.finish,
          Bool.not_false, Bool.and_self, if_true]
      rw [hsend]
      exact {
        sound := .of_pending_eq_none hst.opened hst.capacity_pos hfree
        whole := by
          simp only [Stream.whole, forecast, withRange, hproducer, NodeAccess.andThen,
            List.append_assoc, List.append_nil]
        left := by
          simp only [left, withRange, hproducer, List.length_append, List.length_singleton]
          omega
        deadline := rfl }

theorem carries_take {rest : List Item} (hst : st.Sound)
    (hbuffer : st.range.buffer = item :: rest) :
    Carries p c st m (st.withRange st.range.take) m := by
  have htake : st.range.take =
      { st.range with buffer := rest, taken := st.range.taken ++ [item] } := by
    simp only [Range.take, hbuffer]
  rw [htake]
  exact {
    sound := ⟨hst.opened, hst.capacity_pos, hst.asking⟩
    whole := by
      simp only [Stream.whole, forecast, withRange, hbuffer, List.append_assoc, List.cons_append,
        List.nil_append]
      rfl
    left := by
      simp only [left, withRange, hbuffer, List.length_cons]
      exact Nat.add_lt_add_right (Nat.lt_succ_self _) _
    deadline := rfl }

@[simp] theorem now_served (source : String) (phase : ReadPhase) (s : Backend ν) :
    (served source phase s).now = s.now := by
  rcases phase with _ | _ | _ | (_ | _) <;> rfl

@[simp] theorem now_countEnd (r : Range) (s : Backend ν) : (countEnd r s).now = s.now := by
  unfold countEnd
  split <;> rfl

@[simp] theorem moment_served (source : String) (phase : ReadPhase) (s : Backend ν) :
    (served source phase s).moment = s.moment :=
  Prod.ext (world_served source phase s) (now_served source phase s)

@[simp] theorem moment_countEnd (r : Range) (s : Backend ν) :
    (countEnd r s).moment = s.moment :=
  Prod.ext (world_countEnd r s) (now_countEnd r s)

theorem now_move {before : Stream ν} {s₀ : Backend ν} {r : Range} (hnow : s₀.now = s.now)
    (h : before.move r s₀ = some (st', s')) : s'.now = s.now := by
  cases h
  rw [now_countEnd, hnow]

theorem now_stepPending {f : Fetch ν} (h : st.stepPending f s = some (st', s')) :
    s'.now = s.now := by
  unfold stepPending at h
  split at h
  · exact now_move rfl h
  · split at h
    · cases f with
      | waiting ready ask =>
          cases h
          rfl
      | asked ready reply =>
          refine now_move ?_ h
          split
          · exact now_served _ _ _
          · rfl
    · split at h
      · exact now_move rfl h
      · cases h

theorem now_stepReady (h : st.stepReady p s = some (st', s')) : s'.now = s.now := by
  unfold stepReady at h
  split at h
  · exact now_move rfl h
  · exact now_move rfl h
  · cases h
    rfl
  · exact now_move (now_served _ _ _) h
  · split at h
    · exact now_move rfl h
    · split at h
      · exact now_move rfl h
      · split at h
        · exact now_move rfl h
        · cases h
  · cases h

/-- No time passes in a step of the producer. -/
theorem now_step? (h : st.step? p s = some (st', s')) : s'.now = s.now := by
  unfold step? at h
  split at h
  · exact now_stepPending h
  · exact now_stepReady h

/-- A step of the producer that takes the stream on without touching the cache. -/
structure Works (p : NodeAccess ν) (st : Stream ν) (s : Backend ν) (st' : Stream ν)
    (s' : Backend ν) : Prop where
  carries : Carries p s.cache st s.moment st' s'.moment
  cache : s'.cache = s.cache

theorem works_move {before : Stream ν} {s₀ : Backend ν} {r : Range}
    (hcache : s₀.cache = s.cache) (hmoment : s₀.moment = s.moment)
    (hcarries : Carries p s.cache st s.moment (before.withRange r) s.moment)
    (h : before.move r s₀ = some (st', s')) : Works p st s st' s' := by
  cases h
  exact ⟨by rwa [moment_countEnd, hmoment], (cache_countEnd r s₀).trans hcache⟩

structure Cuts (f : Fetch ν) (st : Stream ν) (s : Backend ν) (st' : Stream ν) (s' : Backend ν) :
    Prop where
  unready : s.now < f.ready
  late : st.deadline ≤ s.now
  step : ({ st with pending := none } : Stream ν).move st.range.cut s = some (st', s')

structure Expires (st : Stream ν) (s : Backend ν) : Prop where
  full : st.range.hasRoom = false
  late : st.deadline ≤ s.now

theorem works_or_cuts_of_stepPending {f : Fetch ν} (hst : st.Sound) (hpending : st.pending = some f)
    (h : st.stepPending f s = some (st', s')) : Works p st s st' s' ∨ Cuts f st s st' s' := by
  simp only [stepPending, hst.opened, Bool.false_eq_true, if_false] at h
  split at h
  next hready =>
    left
    cases f with
    | waiting ready ask =>
        cases h
        exact ⟨carries_askNode hst hpending hready, rfl⟩
    | asked ready reply =>
        refine works_move ?_ ?_ (carries_answer hst hpending hready) h <;> split <;> simp
  next hready =>
    split at h
    next hlate => exact .inr ⟨Nat.lt_of_not_le hready, hlate, h⟩
    · cases h

theorem works_or_expires_of_stepReady (hst : st.Sound) (hfree : st.pending = none)
    (h : st.stepReady p s = some (st', s')) : Works p st s st' s' ∨
      Expires st s ∧ ∃ height item, st.range.producer = .sending height item := by
  simp only [stepReady] at h
  split at h
  next hnext => exact .inl (works_move rfl rfl (carries_proceed hst hnext) h)
  next height item hdone => exact .inl (works_move rfl rfl (carries_offer hst hdone) h)
  next height hasking =>
    cases h
    exact .inl ⟨carries_beginFetch hst hfree hasking, rfl⟩
  next height phase hdone hasking hreading =>
    have hlooks : phase = .looking ∨ phase = .checking := by
      cases phase with
      | looking => exact Or.inl rfl
      | checking => exact Or.inr rfl
      | asking => exact absurd rfl hasking
      | done item => exact absurd rfl (hdone item)
    exact .inl (works_move (cache_served _ _ _) (moment_served _ _ _)
      (carries_look hst hreading hlooks) h)
  next height item hsending =>
    simp only [hst.opened, Bool.false_eq_true, if_false] at h
    split at h
    next hroom => exact .inl (works_move rfl rfl (carries_send hst hsending hroom) h)
    next hroom =>
      split at h
      next hlate => exact .inr ⟨⟨Bool.of_not_eq_true hroom, hlate⟩, height, item, hsending⟩
      · cases h
  · cases h

/-- A step of the producer takes the stream on, unless the deadline has come. Then it may cut off a
fetch or give up an item. -/
theorem works_or_late_of_step? (hst : st.Sound) (h : st.step? p s = some (st', s')) :
    Works p st s st' s' ∨ (∃ f, st.pending = some f ∧ Cuts f st s st' s') ∨
      Expires st s ∧ ∃ height item, st.range.producer = .sending height item := by
  unfold step? at h
  split at h
  next f hpending =>
    exact (works_or_cuts_of_stepPending hst hpending h).imp_right fun hcuts =>
      .inl ⟨f, hpending, hcuts⟩
  next hfree => exact (works_or_expires_of_stepReady hst hfree h).imp_right .inr

/-- Before the deadline every step of the producer takes the stream on. -/
theorem works_of_step? (hst : st.Sound) (hearly : s.now < st.deadline)
    (h : st.step? p s = some (st', s')) : Works p st s st' s' := by
  rcases works_or_late_of_step? hst h with hworks | ⟨f, -, hcuts⟩ | ⟨hexpires, -⟩
  · exact hworks
  · exact absurd hcuts.late (Nat.not_le.mpr hearly)
  · exact absurd hexpires.late (Nat.not_le.mpr hearly)

/-- A producer before an empty buffer waits for the node alone. -/
theorem isEnded_or_waits_of_step?_eq_none (hst : st.Sound) (hbuffer : st.range.buffer = [])
    (h : st.step? p s = none) :
    st.range.isEnded = true ∨ ∃ f, st.pending = some f ∧ s.now < f.ready := by
  cases hpending : st.pending with
  | some f =>
      simp only [step?, hpending, stepPending, hst.opened, Bool.false_eq_true, if_false] at h
      refine Or.inr ⟨f, rfl, Nat.lt_of_not_le fun hready => ?_⟩
      rw [if_pos hready] at h
      cases f <;> cases h
  | none =>
      simp only [step?, hpending, stepReady] at h
      cases hproducer : st.range.producer with
      | next =>
          rw [hproducer] at h
          cases h
      | reading height phase =>
          rw [hproducer] at h
          cases phase <;> cases h
      | sending height item =>
          have hroom : st.range.hasRoom = true := by
            simpa [Range.hasRoom, hbuffer] using hst.capacity_pos
          simp only [hproducer, hst.opened, hroom, Bool.false_eq_true, if_false, if_true] at h
          cases h
      | ended outcome => exact Or.inl (by simp only [Range.isEnded, hproducer])

/-- A fetch that has waited long enough does not keep the producer waiting. -/
theorem isSome_step?_of_ready {f : Fetch ν} (hst : st.Sound) (hpending : st.pending = some f)
    (hready : f.ready ≤ s.now) : (st.step? p s).isSome = true := by
  simp only [step?, hpending, stepPending, hst.opened, Bool.false_eq_true, if_false,
    if_pos hready]
  cases f <;> rfl

/-- With nothing left to do for anyone the stream is over, and all of it is with the reader. -/
theorem whole_of_isEnded (hended : st.range.isEnded = true) (hbuffer : st.range.buffer = []) :
    st.whole p c m = (st.range.taken, m) := by
  unfold Range.isEnded at hended
  split at hended
  next hproducer => simp [Stream.whole, forecast, hproducer, hbuffer]
  · cases hended

/-- Time that passes before a fetch is ready makes nothing later. -/
theorem whole_of_le_ready {f : Fetch ν} {w : ν} {t t' : Nat} (hst : st.Sound)
    (hpending : st.pending = some f) (ht : t' ≤ f.ready) :
    st.whole p c (w, max t t') = st.whole p c (w, t) := by
  obtain ⟨height, hproducer⟩ := hst.asking _ hpending
  have hconclude : f.conclude (w, max t t') = f.conclude (w, t) := by
    have htime : max (max t t') f.ready = max t f.ready := by omega
    cases f with
    | waiting ready ask => exact Prod.ext rfl (Prod.ext rfl (congrArg (· + _) htime))
    | asked ready reply => exact Prod.ext rfl (Prod.ext rfl htime)
  simp only [Stream.whole, forecast, hproducer, hpending, hconclude]

/-- What comes from a fetch does not come before the fetch is ready. -/
theorem ready_le_whole {f : Fetch ν} (hst : st.Sound) (hpending : st.pending = some f) :
    f.ready ≤ (st.whole p c m).2.2 := by
  obtain ⟨height, hproducer⟩ := hst.asking _ hpending
  have hready : f.ready ≤ (f.conclude m).2.2 := by
    cases f with
    | waiting ready ask => exact Nat.le_trans (Nat.le_max_right _ _) (Nat.le_add_right _ _)
    | asked ready reply => exact Nat.le_max_right _ _
  have hlater := (clocked_pure (settle height (f.conclude m).1)).andThen
    (p.clocked_readAll c (st.range.heights.drop (st.range.index + 1)))
  simp only [Stream.whole, forecast, hproducer, hpending]
  exact Nat.le_trans hready (hlater.lasts _)

end Stream
end Backend
end LightServer
