import LightServer.Proofs.Cache.Run
import LightServer.Proofs.Retrieval.Course

/-!
# What the reader of a stream gets

In every course the items that were put into the buffer are the blocks at the
first heights of the range, in order, and after them one error at most. `Stage`
says so for each state of the producer. A reader that stays gets all of these
items, so what it has at the end of the stream tells it how the stream ended,
with one exception: a deadline that passes while the buffer is full leaves no
trace, and the blocks that were sent before look like all there is.
-/

namespace LightServer.Retrieval

namespace Course

variable {c c' : Course} {m : Move}

/-- What was sent are the blocks that the reads `prior` gave at the first heights of the range,
in order, and then the items `rest`. -/
structure Sends (c : Course) (prior : List (Nat × Item)) (rest : List Item) : Prop where
  heights : prior.map Prod.fst = c.range.heights.take prior.length
  blocks : ∀ x ∈ prior, ∃ b, x.2 = .ok b
  sent : c.sent = prior.map Prod.snd ++ rest

/-- How far the producer has come, and what it has sent until then. -/
inductive Stage (c : Course) : Prop where
  | next (hproducer : c.range.producer = .next) (hindex : c.range.index = c.reads.length)
      (hsends : c.Sends c.reads []) (hlate : c.late = false) (hsilenced : c.silenced = false)
  | reading {height : Nat} {phase : ReadPhase}
      (hproducer : c.range.producer = .reading height phase)
      (hindex : c.range.index = c.reads.length)
      (hheight : c.range.heights[c.reads.length]? = some height)
      (hsends : c.Sends c.reads []) (hlate : c.late = false) (hsilenced : c.silenced = false)
  | sending {height : Nat} {item : Item} {prior : List (Nat × Item)}
      (hproducer : c.range.producer = .sending height item)
      (hindex : c.range.index = prior.length)
      (hheight : c.range.heights[prior.length]? = some height)
      (hreads : c.reads = prior ++ [(height, item)])
      (hsends : c.Sends prior []) (hlate : c.late = false) (hsilenced : c.silenced = false)
  | cutting {height : Nat}
      (hproducer : c.range.producer = .sending height (.error (.deadlineExceeded height)))
      (hheight : c.range.heights[c.reads.length]? = some height)
      (hsends : c.Sends c.reads []) (hsilenced : c.silenced = false)
  | complete (hproducer : c.range.producer = .ended .complete)
      (hall : c.reads.length = c.range.heights.length)
      (hsends : c.Sends c.reads []) (hsilenced : c.silenced = false)
  | failed {prior : List (Nat × Item)} {e : Error} (hproducer : c.range.producer = .ended .failed)
      (hsends : c.Sends prior [.error e])
      (hlate : c.late = true → ∃ height, e = .deadlineExceeded height)
      (hsilenced : c.silenced = false)
  | silenced {prior : List (Nat × Item)} (hproducer : c.range.producer = .ended .failed)
      (hshort : prior.length < c.range.heights.length)
      (hsends : c.Sends prior []) (hsilenced : c.silenced = true)
  | cancelled {prior : List (Nat × Item)} (hproducer : c.range.producer = .ended .cancelled)
      (hclosed : c.range.closed = true) (hsends : c.Sends prior [])

variable {height : Nat} {item : Item} {prior : List (Nat × Item)} {rest : List Item}
  {b : CompactBlock} {r : Range}

theorem Sends.frame (hsends : c.Sends prior rest) (hheights : c'.range.heights = c.range.heights)
    (hsent : c'.sent = c.sent) : c'.Sends prior rest where
  heights := by rw [hheights, hsends.heights]
  blocks := hsends.blocks
  sent := by rw [hsent, hsends.sent]

theorem Sends.concat (hsends : c.Sends prior []) (hheights : c'.range.heights = c.range.heights)
    (hsent : c'.sent = c.sent ++ rest) : c'.Sends prior rest where
  heights := by rw [hheights, hsends.heights]
  blocks := hsends.blocks
  sent := by rw [hsent, hsends.sent, List.append_nil]

/-- A block at the next height goes on the blocks that were sent. -/
theorem Sends.snoc (hsends : c.Sends prior []) (hheights : c'.range.heights = c.range.heights)
    (hheight : c.range.heights[prior.length]? = some height) (hsent : c'.sent = c.sent ++ [.ok b]) :
    c'.Sends (prior ++ [(height, .ok b)]) [] where
  heights := by
    rw [hheights, List.map_append, hsends.heights, List.length_append, List.length_singleton,
      List.take_add_one, hheight]
    rfl
  blocks := by
    intro x hx
    rcases List.mem_append.mp hx with hold | hnew
    · exact hsends.blocks x hold
    · rw [List.mem_singleton.mp hnew]
      exact ⟨b, rfl⟩
  sent := by
    rw [hsent, hsends.sent, List.append_nil, List.append_nil, List.map_append]
    rfl

theorem Sends.length_le (hsends : c.Sends prior rest) : prior.length ≤ c.range.heights.length := by
  have hlength := congrArg List.length hsends.heights
  rw [List.length_map, List.length_take] at hlength
  omega

/-- What the reader does is nothing to the producer. -/
theorem Stage.frame (h : Stage c) (hproducer : r.producer = c.range.producer)
    (hindex : r.index = c.range.index) (hheights : r.heights = c.range.heights)
    (hclosed : c.range.closed = true → r.closed = true) : Stage { c with range := r } := by
  cases h with
  | next hp hi hsends hlate hsil =>
      exact Stage.next (hproducer.trans hp) (hindex.trans hi) (hsends.frame hheights rfl) hlate hsil
  | reading hp hi hh hsends hlate hsil =>
      exact Stage.reading (hproducer.trans hp) (hindex.trans hi) (hheights ▸ hh)
        (hsends.frame hheights rfl) hlate hsil
  | sending hp hi hh hreads hsends hlate hsil =>
      exact Stage.sending (hproducer.trans hp) (hindex.trans hi) (hheights ▸ hh) hreads
        (hsends.frame hheights rfl) hlate hsil
  | cutting hp hh hsends hsil =>
      exact Stage.cutting (hproducer.trans hp) (hheights ▸ hh) (hsends.frame hheights rfl) hsil
  | complete hp hall hsends hsil =>
      exact Stage.complete (hproducer.trans hp) (hheights ▸ hall) (hsends.frame hheights rfl) hsil
  | failed hp hsends hlate hsil =>
      exact Stage.failed (hproducer.trans hp) (hsends.frame hheights rfl) hlate hsil
  | silenced hp hshort hsends hsil =>
      exact Stage.silenced (hproducer.trans hp) (hheights ▸ hshort) (hsends.frame hheights rfl) hsil
  | cancelled hp hc hsends =>
      exact Stage.cancelled (hproducer.trans hp) (hclosed hc) (hsends.frame hheights rfl)

theorem Stage.of_next (h : Stage c) (hproducer : c.range.producer = .next) :
    c.range.index = c.reads.length ∧ c.Sends c.reads [] ∧ c.late = false ∧ c.silenced = false := by
  cases h with
  | next _ hindex hsends hlate hsilenced => exact ⟨hindex, hsends, hlate, hsilenced⟩
  | reading hp | sending hp | cutting hp | complete hp | failed hp | silenced hp | cancelled hp =>
      rw [hp] at hproducer
      cases hproducer

theorem Stage.of_reading {phase : ReadPhase} (h : Stage c)
    (hproducer : c.range.producer = .reading height phase) :
    c.range.index = c.reads.length ∧ c.range.heights[c.reads.length]? = some height ∧
      c.Sends c.reads [] ∧ c.late = false ∧ c.silenced = false := by
  cases h with
  | reading hp hindex hheight hsends hlate hsilenced =>
      rw [hp] at hproducer
      cases hproducer
      exact ⟨hindex, hheight, hsends, hlate, hsilenced⟩
  | next hp | sending hp | cutting hp | complete hp | failed hp | silenced hp | cancelled hp =>
      rw [hp] at hproducer
      cases hproducer

/-- Whatever the producer is sending, the blocks at the heights before it were sent. -/
theorem Stage.of_sending (h : Stage c) (hproducer : c.range.producer = .sending height item) :
    c.silenced = false ∧ ∃ prior, c.range.heights[prior.length]? = some height ∧
      c.Sends prior [] ∧
      ((c.range.index = prior.length ∧ c.reads = prior ++ [(height, item)] ∧ c.late = false) ∨
        item = .error (.deadlineExceeded height)) := by
  cases h with
  | sending hp hindex hheight hreads hsends hlate hsilenced =>
      rw [hp] at hproducer
      cases hproducer
      exact ⟨hsilenced, _, hheight, hsends, Or.inl ⟨hindex, hreads, hlate⟩⟩
  | cutting hp hheight hsends hsilenced =>
      rw [hp] at hproducer
      cases hproducer
      exact ⟨hsilenced, _, hheight, hsends, Or.inr rfl⟩
  | next hp | reading hp | complete hp | failed hp | silenced hp | cancelled hp =>
      rw [hp] at hproducer
      cases hproducer

theorem Stage.exists_sends (h : Stage c) (hended : c.range.isEnded = false) :
    ∃ prior, c.Sends prior [] := by
  cases h with
  | next _ _ hsends => exact ⟨_, hsends⟩
  | reading _ _ _ hsends => exact ⟨_, hsends⟩
  | sending _ _ _ _ hsends => exact ⟨_, hsends⟩
  | cutting _ _ hsends => exact ⟨_, hsends⟩
  | complete hp | failed hp | silenced hp | cancelled hp =>
      rw [Range.isEnded, hp] at hended
      cases hended

theorem stage_begin (capacity start stop : Nat) : Stage (begin capacity start stop) :=
  Stage.next rfl rfl ⟨rfl, by simp [begin], rfl⟩ rfl rfl

theorem Stage.of_step (h : Stage c) (hstep : Step c m c') : Stage c' := by
  cases hstep with
  | idle => exact h
  | read hproducer hheight hopen =>
      obtain ⟨hindex, hsends, hlate, hsilenced⟩ := h.of_next hproducer
      rw [hindex] at hheight
      exact Stage.reading rfl hindex hheight (hsends.frame rfl rfl) hlate hsilenced
  | complete hproducer hheight =>
      obtain ⟨hindex, hsends, hlate, hsilenced⟩ := h.of_next hproducer
      rw [hindex, List.getElem?_eq_none_iff] at hheight
      exact Stage.complete rfl (Nat.le_antisymm hsends.length_le hheight) (hsends.frame rfl rfl)
        hsilenced
  | leave hproducer hclosed =>
      obtain ⟨-, hsends, -, -⟩ := h.of_next hproducer
      exact Stage.cancelled rfl hclosed (hsends.frame rfl rfl)
  | look k hproducer =>
      obtain ⟨hindex, hheight, hsends, hlate, hsilenced⟩ := h.of_reading hproducer
      exact Stage.reading rfl hindex hheight (hsends.frame rfl rfl) hlate hsilenced
  | answer reply hproducer =>
      obtain ⟨hindex, hheight, hsends, hlate, hsilenced⟩ := h.of_reading hproducer
      exact Stage.reading rfl hindex hheight (hsends.frame rfl rfl) hlate hsilenced
  | offer hproducer =>
      obtain ⟨hindex, hheight, hsends, hlate, hsilenced⟩ := h.of_reading hproducer
      exact Stage.sending rfl hindex hheight rfl (hsends.frame rfl rfl) hlate hsilenced
  | cut hproducer =>
      obtain ⟨hindex, hheight, hsends, hlate, hsilenced⟩ := h.of_reading hproducer
      exact Stage.cutting rfl hheight (hsends.frame rfl rfl) hsilenced
  | cancel hclosed _ hended =>
      obtain ⟨prior, hsends⟩ := h.exists_sends hended
      exact Stage.cancelled rfl hclosed (hsends.frame rfl rfl)
  | @sendBlock height b hproducer =>
      obtain ⟨hsilenced, prior, hheight, hsends, ⟨hindex, hreads, hlate⟩ | hcut⟩ :=
        h.of_sending hproducer
      · refine Stage.next rfl ?_ ?_ hlate hsilenced
        · simp only [hindex, hreads, List.length_append, List.length_singleton]
        · simp only [hreads]
          exact hsends.snoc rfl hheight rfl
      · cases hcut
  | sendError hproducer =>
      obtain ⟨hsilenced, prior, hheight, hsends, hwhy⟩ := h.of_sending hproducer
      refine Stage.failed rfl (hsends.concat rfl rfl) (fun hlate => ?_) hsilenced
      rcases hwhy with ⟨-, -, hnot⟩ | hcut
      · exact absurd hlate (by simp [hnot])
      · cases hcut
        exact ⟨_, rfl⟩
  | @tell height item hproducer =>
      obtain ⟨hsilenced, prior, hheight, hsends, -⟩ := h.of_sending hproducer
      exact Stage.failed rfl (hsends.concat rfl rfl) (fun _ => ⟨height, rfl⟩) hsilenced
  | silence hproducer =>
      obtain ⟨-, prior, hheight, hsends, -⟩ := h.of_sending hproducer
      exact Stage.silenced rfl (List.getElem?_eq_some_iff.mp hheight).1 (hsends.frame rfl rfl) rfl
  | take hbuffer => exact h.frame rfl rfl rfl id
  | close => exact h.frame rfl rfl rfl fun _ => rfl
  | drop => exact h.frame rfl rfl rfl fun _ => rfl

theorem stage_run (capacity start stop : Nat) (ms : List Move) :
    Stage ((begin capacity start stop).run ms) :=
  run_induction (stage_begin capacity start stop) (fun m c h => h.of_step (step_step m c)) ms

/-- As long as the reader stays, what was sent is what it has and what waits for it. -/
def Delivers (c : Course) : Prop :=
  c.range.closed = false → c.range.taken ++ c.range.buffer = c.sent

theorem Delivers.of_step (h : Delivers c) (hstep : Step c m c') : Delivers c' := by
  cases hstep with
  | idle => exact h
  | read | complete | leave | look | answer | offer | cut | cancel | silence => exact h
  | sendBlock _ hopen | sendError _ hopen | tell _ hopen =>
      intro _
      rw [← h hopen, List.append_assoc]
  | take hbuffer =>
      intro hopen
      rw [← h hopen, hbuffer, List.append_assoc]
      rfl
  | close | drop => exact fun hopen => nomatch hopen

theorem delivers_run (capacity start stop : Nat) (ms : List Move) :
    Delivers ((begin capacity start stop).run ms) :=
  run_induction (fun _ => rfl) (fun m c h => h.of_step (step_step m c)) ms

theorem closed_of_step (hstep : Step c m c') (hclose : m ≠ .close) (hdrop : m ≠ .drop) :
    c'.range.closed = c.range.closed := by
  cases hstep with
  | close => exact absurd rfl hclose
  | drop => exact absurd rfl hdrop
  | _ => rfl

/-- Only the reader itself closes the stream. -/
theorem closed_run {ms : List Move} (hstay : Stays ms) (c : Course) :
    (c.run ms).range.closed = c.range.closed := by
  induction ms generalizing c with
  | nil => rfl
  | cons m ms ih =>
      obtain ⟨hclose, hdrop⟩ := hstay m List.mem_cons_self
      rw [run_cons, ih fun m hm => hstay m (List.mem_cons_of_mem _ hm)]
      exact closed_of_step (step_step m c) hclose hdrop

/-- The reader has a block for each height of the range, in order, and each is what the read of
its height gave. -/
structure Whole (c : Course) : Prop where
  heights : c.reads.map Prod.fst = c.range.heights
  taken : c.range.taken = c.reads.map Prod.snd
  blocks : ∀ x ∈ c.range.taken, ∃ b, x = .ok b

/-- The last item that the reader has is an error, and one that tells of the deadline if that is
what ended the production. -/
def EndsInError (c : Course) : Prop :=
  ∃ items e, c.range.taken = items ++ [.error e] ∧
    (c.late = true → ∃ height, e = .deadlineExceeded height)

theorem Sends.blocks_taken (hsends : c.Sends prior []) (htaken : c.range.taken = c.sent) :
    ∀ x ∈ c.range.taken, ∃ b, x = .ok b := by
  intro x hx
  rw [htaken, hsends.sent, List.append_nil] at hx
  obtain ⟨y, hy, rfl⟩ := List.mem_map.mp hx
  exact hsends.blocks y hy

/-- After a silent end the reader has fewer blocks than the range has heights, and no error. -/
theorem Sends.not_whole_or_endsInError (hsends : c.Sends prior [])
    (hshort : prior.length < c.range.heights.length) (htaken : c.range.taken = c.sent) :
    ¬ (c.Whole ∨ c.EndsInError) := by
  rintro (hwhole | ⟨items, e, hitems, -⟩)
  · have hcount := congrArg List.length hwhole.taken
    have hheights := congrArg List.length hwhole.heights
    rw [htaken, hsends.sent, List.append_nil, List.length_map, List.length_map] at hcount
    rw [List.length_map] at hheights
    omega
  · obtain ⟨b, hb⟩ := hsends.blocks_taken htaken (.error e) (by rw [hitems]; simp)
    cases hb

/-- A reader that stays to the end of a stream has every block of the range or an error at the
end, unless the deadline passed when the buffer was full. -/
theorem whole_or_endsInError_iff (capacity start stop : Nat) (ms : List Move)
    (hstay : Stays ms)
    (hended : ((begin capacity start stop).run ms).range.isEnded = true)
    (hread : ((begin capacity start stop).run ms).range.buffer = []) :
    ((begin capacity start stop).run ms).Whole ∨
        ((begin capacity start stop).run ms).EndsInError ↔
      ((begin capacity start stop).run ms).silenced = false := by
  have hopen := closed_run hstay (begin capacity start stop)
  have htaken := delivers_run capacity start stop ms hopen
  have hstage := stage_run capacity start stop ms
  generalize (begin capacity start stop).run ms = c at hended hread hopen htaken hstage ⊢
  rw [hread, List.append_nil] at htaken
  cases hstage with
  | complete _ hall hsends hsilenced =>
      refine iff_of_true (Or.inl ?_) hsilenced
      exact {
        heights := by rw [hsends.heights, hall, List.take_length]
        taken := by rw [htaken, hsends.sent, List.append_nil]
        blocks := hsends.blocks_taken htaken }
  | @failed prior e _ hsends hlate hsilenced =>
      refine iff_of_true (Or.inr ⟨prior.map Prod.snd, e, ?_, hlate⟩) hsilenced
      rw [htaken, hsends.sent]
  | silenced _ hshort hsends hsilenced =>
      refine iff_of_false (hsends.not_whole_or_endsInError hshort htaken) ?_
      rw [hsilenced]
      exact Bool.noConfusion
  | cancelled _ hclosed =>
      rw [hopen] at hclosed
      cases hclosed
  | next hp | reading hp | sending hp | cutting hp =>
      rw [Range.isEnded, hp] at hended
      cases hended

def pairCache : Cache :=
  (Cache.empty .standard 4).addAll [(0, Sample.marked 0 1 0), (1, Sample.marked 1 2 1)]

/-- The deadline passes while the second of two cached blocks waits behind the first one, and
only then the reader begins to take. -/
def lateReader (k : Cache) : List Move :=
  [.proceed, .look k, .offer, .send, .proceed, .look k, .offer, .expire, .take]

theorem run_lateReader {k : Cache} {a b : CompactBlock} (ha : k.get 0 = .ok (some a))
    (hb : k.get 1 = .ok (some b)) :
    (begin 1 0 1).run (lateReader k) = {
      range := ⟨0, 1, 1, 1, .ended .failed, [], [.ok a], false⟩
      reads := [(0, .ok a), (1, .ok b)]
      sent := [.ok a]
      late := true
      silenced := true } := by
  simp [lateReader, begin, Range.begin, step, Range.after, Range.proceed, Range.heightAt?,
    Range.span, Range.look, ReadPhase.look, firstLook, ha, hb, Range.offer, Range.send,
    Range.hasRoom, Range.afterSend, Range.expire, Range.take, Move.read, Move.sent, Move.isLate,
    Move.isSilent]

theorem holds_pairCache :
    pairCache.Holds 0 [Sample.marked 0 1 0, Sample.marked 1 2 1] := by
  obtain ⟨k, hadd, hk⟩ := Cache.add_of_fresh (c := Cache.empty .standard 4) (h := 0)
    (b := Sample.marked 0 1 0) rfl rfl rfl
  have hdata : k.codec.encode (Sample.marked 1 2 1) =
      .ok (Encoding.encode (Sample.marked 1 2 1)) := by
    rw [Cache.codec_eq_of_add hadd]
    rfl
  have hroom : 1 - 0 < k.capacity := by
    have hcapacity := Cache.capacity_add 0 (Sample.marked 0 1 0) (.empty .standard 4)
    rw [hadd] at hcapacity
    rw [hcapacity]
    decide
  have hlast : (Sample.marked 1 2 1).ExtendsLast [Sample.marked 0 1 0] := by
    rintro p ⟨⟩
    rfl
  obtain ⟨k', hadd', hholds⟩ :=
    hk.add_of_extends hdata (Nat.zero_le 1) (Nat.le_refl 1) hroom hlast
  have hpair : pairCache = k' := by
    rw [pairCache, Cache.addAll_cons, Cache.addAll_cons, hadd, hadd']
    rfl
  rw [hpair]
  exact hholds

theorem get_pairCache :
    pairCache.get 0 = .ok (some (Sample.marked 0 1 0)) ∧
      pairCache.get 1 = .ok (some (Sample.marked 1 2 1)) := by
  have hcodec : pairCache.codec = .standard := Cache.codec_addAll _ _
  have hfaithful : ∀ height mark parent,
      pairCache.codec.Faithful (Sample.marked height mark parent) := by
    intro height mark parent
    rw [hcodec]
    exact EntryCodec.faithful_standard (Sample.storable_marked height mark parent)
  exact ⟨holds_pairCache.get_add (i := 0) rfl (hfaithful 0 1 0),
    holds_pairCache.get_add (i := 1) rfl (hfaithful 1 2 1)⟩

theorem stays_lateReader (k : Cache) : Stays (lateReader k) := by
  simp [Stays, lateReader]

theorem whole_or_endsInError_iff_of_lateReader :
    Stays (lateReader pairCache) ∧
      (((begin 1 0 1).run (lateReader pairCache)).Whole ∨
          ((begin 1 0 1).run (lateReader pairCache)).EndsInError ↔
        ((begin 1 0 1).run (lateReader pairCache)).silenced = false) := by
  have hrun := run_lateReader get_pairCache.1 get_pairCache.2
  exact ⟨stays_lateReader pairCache, whole_or_endsInError_iff 1 0 1 (lateReader pairCache)
    (stays_lateReader pairCache) (by rw [hrun]; rfl) (by rw [hrun])⟩

/-- The reader has one of two blocks, the stream is over, and nothing tells of the deadline. -/
theorem lateReader_not_whole_or_endsInError :
    Stays (lateReader pairCache) ∧
      ((begin 1 0 1).run (lateReader pairCache)).range.isEnded = true ∧
      ((begin 1 0 1).run (lateReader pairCache)).range.buffer = [] ∧
      ((begin 1 0 1).run (lateReader pairCache)).range.taken = [.ok (Sample.marked 0 1 0)] ∧
      ((begin 1 0 1).run (lateReader pairCache)).late = true ∧
      ¬ (((begin 1 0 1).run (lateReader pairCache)).Whole ∨
        ((begin 1 0 1).run (lateReader pairCache)).EndsInError) := by
  rw [run_lateReader get_pairCache.1 get_pairCache.2]
  refine ⟨stays_lateReader pairCache, rfl, rfl, rfl, rfl, ?_⟩
  rintro (hwhole | ⟨items, e, hitems, -⟩)
  · cases hwhole.taken
  · cases items with
    | nil => cases hitems
    | cons x items => simp at hitems

end Course

end LightServer.Retrieval
