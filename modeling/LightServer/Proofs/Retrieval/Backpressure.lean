import LightServer.Proofs.Retrieval.Order

/-!
# How far a producer runs ahead

A read is begun when the producer turns to a height, and the node is called when
its looks at the cache have told it to ask. Both are seen from the outside, as
what is different after a move. The producer never begins more reads than the
reader has taken items, the buffer has room for, and one more, for the item that
it holds in its hand. Once the reader has closed the stream it begins none, and
it calls the node at most for the height at which it was looking just then.
-/

namespace LightServer.Retrieval

namespace Producer

def reads? : Producer → Option Nat
  | reading height _ => some height
  | _ => none

def looks? : Producer → Option Nat
  | reading height .looking => some height
  | reading height .checking => some height
  | _ => none

def asks? : Producer → Option Nat
  | reading height .asking => some height
  | _ => none

/-- The read that is begun between one moment and the next. -/
def begun (p p' : Producer) : List Nat := if p.reads?.isNone then p'.reads?.toList else []

/-- The call of the node that is made between one moment and the next. -/
def called (p p' : Producer) : List Nat := if p.asks?.isNone then p'.asks?.toList else []

theorem begun_self (p : Producer) : begun p p = [] := by
  cases p <;> rfl

theorem called_self (p : Producer) : called p p = [] := by
  rcases p with _ | ⟨height, _ | _ | _ | item⟩ | _ | _ <;> rfl

end Producer

namespace Course

def begun : List Move → Course → List Nat
  | [], _ => []
  | m :: ms, c => Producer.begun c.range.producer (c.step m).range.producer ++ begun ms (c.step m)

def called : List Move → Course → List Nat
  | [], _ => []
  | m :: ms, c => Producer.called c.range.producer (c.step m).range.producer ++ called ms (c.step m)

variable {capacity n : Nat} {c c' : Course} {m : Move}

/-- A producer that has begun `n` reads is not too far ahead of its reader. As long as the stream
is open every item that it has read is with the reader, in the buffer or in its hand. -/
structure Abreast (capacity n : Nat) (c : Course) : Prop where
  capacity_eq : c.range.capacity = capacity
  room : c.range.buffer.length ≤ capacity
  ahead : n ≤ c.range.taken.length + capacity + 1
  inHand : c.range.closed = false → n ≤ c.range.taken.length + c.range.buffer.length + 1
  sent : c.range.closed = false → c.range.producer = .next →
    n ≤ c.range.taken.length + c.range.buffer.length

theorem abreast_begin (capacity start stop : Nat) :
    Abreast capacity 0 (begin capacity start stop) :=
  ⟨rfl, Nat.zero_le _, Nat.zero_le _, fun _ => Nat.zero_le _, fun _ _ => Nat.zero_le _⟩

theorem Abreast.of_step (h : Abreast capacity n c) (hstep : Step c m c') :
    Abreast capacity (n + (Producer.begun c.range.producer c'.range.producer).length) c' := by
  obtain ⟨hcapacity, hroom, hahead, hhand, hsent⟩ := h
  cases hstep with
  | idle =>
      rw [Producer.begun_self]
      exact ⟨hcapacity, hroom, hahead, hhand, hsent⟩
  | read hproducer hheight hopen =>
      -- all that was read before was sent, so that the hand is free
      have hfree := hsent hopen hproducer
      rw [hproducer]
      exact ⟨hcapacity, hroom, by simp [Producer.begun, Producer.reads?]; omega,
        fun _ => Nat.succ_le_succ hfree, fun _ hnext => Producer.noConfusion hnext⟩
  | complete hproducer | leave hproducer | look k hproducer | answer reply hproducer
  | offer hproducer | cut hproducer | silence hproducer =>
      rw [hproducer]
      exact ⟨hcapacity, hroom, hahead, hhand, fun _ hnext => Producer.noConfusion hnext⟩
  | cancel hclosed =>
      have hidle : (Producer.begun c.range.producer (.ended .cancelled)) = [] := by
        cases c.range.producer <;> rfl
      have hshut : ¬ (c.range.finish .cancelled).closed = false := by simp [Range.finish, hclosed]
      exact ⟨hcapacity, hroom, by rw [Range.finish, hidle]; exact hahead,
        fun hopen => absurd hopen hshut, fun _ hnext => Producer.noConfusion hnext⟩
  | sendBlock hproducer hopen hfull =>
      have hnew := hhand hopen
      rw [Range.hasRoom, decide_eq_true_eq] at hfull
      rw [hproducer]
      refine ⟨hcapacity, ?_, hahead, fun _ => ?_, fun _ _ => ?_⟩
      · rw [List.length_append, List.length_singleton]
        omega
      · simp only [Producer.begun, Producer.reads?, List.length_append, List.length_singleton]
        exact Nat.le_succ_of_le hnew
      · simp only [Producer.begun, Producer.reads?, List.length_append, List.length_singleton]
        exact hnew
  | sendError hproducer hopen hfull | tell hproducer hopen hfull =>
      have hnew := hhand hopen
      rw [Range.hasRoom, decide_eq_true_eq] at hfull
      rw [hproducer]
      refine ⟨hcapacity, ?_, hahead, fun _ => ?_, fun _ hnext => Producer.noConfusion hnext⟩
      · rw [List.length_append, List.length_singleton]
        omega
      · simp only [Producer.begun, Producer.reads?, List.length_append, List.length_singleton]
        exact Nat.le_succ_of_le hnew
  | @take item rest hbuffer =>
      rw [Producer.begun_self]
      have hmoved : (c.range.taken ++ [item]).length + rest.length =
          c.range.taken.length + c.range.buffer.length := by
        rw [hbuffer, List.length_append, List.length_singleton, List.length_cons]
        omega
      have hlonger : c.range.taken.length ≤ (c.range.taken ++ [item]).length := by simp
      rw [hbuffer, List.length_cons] at hroom
      refine ⟨hcapacity, Nat.le_of_succ_le hroom, ?_, fun hopen => ?_, fun hopen hnext => ?_⟩
      · exact Nat.le_trans hahead (Nat.succ_le_succ (Nat.add_le_add_right hlonger capacity))
      · exact Nat.le_trans (hhand hopen) (Nat.succ_le_succ (Nat.le_of_eq hmoved.symm))
      · exact Nat.le_trans (hsent hopen hnext) (Nat.le_of_eq hmoved.symm)
  | close =>
      have hsame : Producer.begun c.range.producer c.range.close.producer = [] :=
        Producer.begun_self _
      rw [hsame]
      exact ⟨hcapacity, hroom, hahead, fun hopen => Bool.noConfusion hopen,
        fun hopen => Bool.noConfusion hopen⟩
  | drop =>
      have hsame : Producer.begun c.range.producer c.range.drop.producer = [] :=
        Producer.begun_self _
      rw [hsame]
      exact ⟨hcapacity, Nat.zero_le _, hahead, fun hopen => Bool.noConfusion hopen,
        fun hopen => Bool.noConfusion hopen⟩

theorem Abreast.run (h : Abreast capacity n c) (ms : List Move) :
    Abreast capacity (n + (begun ms c).length) (c.run ms) := by
  induction ms generalizing n c with
  | nil => exact h
  | cons m ms ih =>
      have hstep := h.of_step (step_step m c)
      rw [begun, List.length_append, ← Nat.add_assoc]
      exact ih hstep

/-- A stream that is closed stays closed, begins no read, and calls the node at most for the height
at which it is looking. What its reader can still take is in the buffer. -/
structure Winds (c c' : Course) : Prop where
  closed : c'.range.closed = true
  begun : Producer.begun c.range.producer c'.range.producer = []
  called : Producer.called c.range.producer c'.range.producer ++
    c'.range.producer.looks?.toList <+: c.range.producer.looks?.toList
  left : c'.range.taken ++ c'.range.buffer <+: c.range.taken ++ c.range.buffer

theorem looks_look (height : Nat) (phase : ReadPhase) (k : Cache) :
    (Producer.reading height phase).called (.reading height (phase.look height k)) ++
      (Producer.reading height (phase.look height k)).looks?.toList <+:
        (Producer.reading height phase).looks?.toList := by
  cases phase with
  | looking =>
      simp only [ReadPhase.look]
      split
      · exact List.nil_prefix
      · exact List.prefix_refl _
  | checking =>
      simp only [ReadPhase.look]
      split
      · exact List.prefix_refl _
      · exact List.nil_prefix
  | asking | done => exact List.prefix_refl _

theorem winds_of_step (hclosed : c.range.closed = true) (hstep : Step c m c') : Winds c c' := by
  have hself : ∀ p : Producer, p.called p ++ p.looks?.toList <+: p.looks?.toList := by
    intro p
    rw [Producer.called_self]
    exact List.prefix_refl _
  cases hstep with
  | idle => exact ⟨hclosed, Producer.begun_self _, hself _, List.prefix_refl _⟩
  | read _ _ hopen | sendBlock _ hopen | sendError _ hopen | tell _ hopen | silence _ hopen =>
      rw [hclosed] at hopen
      cases hopen
  | complete hproducer | leave hproducer | answer reply hproducer | offer hproducer
  | cut hproducer =>
      refine ⟨hclosed, ?_, ?_, List.prefix_refl _⟩ <;> rw [hproducer]
      · rfl
      · exact List.nil_prefix
  | look k hproducer =>
      refine ⟨hclosed, ?_, ?_, List.prefix_refl _⟩ <;> rw [hproducer]
      · rfl
      · exact looks_look _ _ k
  | cancel =>
      refine ⟨hclosed, ?_, ?_, List.prefix_refl _⟩
      · cases c.range.producer <;> rfl
      · rcases c.range.producer with _ | ⟨height, _ | _ | _ | item⟩ | _ | _ <;> exact List.nil_prefix
  | @take item rest hbuffer =>
      refine ⟨hclosed, Producer.begun_self _, hself _, ?_⟩
      rw [hbuffer, List.append_assoc]
      exact List.prefix_refl _
  | close => exact ⟨rfl, Producer.begun_self _, hself _, List.prefix_refl _⟩
  | drop =>
      refine ⟨rfl, Producer.begun_self _, hself _, ?_⟩
      exact (List.prefix_append_right_inj _).mpr List.nil_prefix

theorem begun_of_closed (hclosed : c.range.closed = true) (ms : List Move) : begun ms c = [] := by
  induction ms generalizing c with
  | nil => rfl
  | cons m ms ih =>
      have hwinds := winds_of_step hclosed (step_step m c)
      rw [begun, hwinds.begun, ih hwinds.closed]
      rfl

theorem called_of_closed (hclosed : c.range.closed = true) (ms : List Move) :
    called ms c <+: c.range.producer.looks?.toList := by
  induction ms generalizing c with
  | nil => exact List.nil_prefix
  | cons m ms ih =>
      have hwinds := winds_of_step hclosed (step_step m c)
      exact ((List.prefix_append_right_inj _).mpr (ih hwinds.closed)).trans hwinds.called

theorem left_of_closed (hclosed : c.range.closed = true) (ms : List Move) :
    (c.run ms).range.taken ++ (c.run ms).range.buffer <+: c.range.taken ++ c.range.buffer := by
  induction ms generalizing c with
  | nil => exact List.prefix_refl _
  | cons m ms ih =>
      have hwinds := winds_of_step hclosed (step_step m c)
      exact (ih hwinds.closed).trans hwinds.left

/-- What a reader takes after it has closed the stream was in the buffer. -/
theorem exists_taken_of_closed (hclosed : c.range.closed = true) (ms : List Move) :
    ∃ got, got <+: c.range.buffer ∧ (c.run ms).range.taken = c.range.taken ++ got := by
  obtain ⟨got, hgot⟩ := taken_prefix_run ms c
  have hleft := (List.prefix_append _ _).trans (left_of_closed hclosed ms)
  rw [← hgot] at hleft
  exact ⟨got, (List.prefix_append_right_inj _).mp hleft, hgot.symm⟩

/-- However the stream goes on, no read is begun in it, the node is called at most for a height for
which the producer is at its looks, and not at all while the producer waits, and what the reader
still gets is in the buffer. -/
structure WindsDown (c : Course) (more : List Move) : Prop where
  begun : begun more c = []
  called : called more c <+: c.range.producer.looks?.toList
  called_of_waiting : c.range.producer.looks? = none → Course.called more c = []
  taken : ∃ got, got <+: c.range.buffer ∧ (c.run more).range.taken = c.range.taken ++ got

theorem windsDown_of_closed (hclosed : c.range.closed = true) (more : List Move) :
    WindsDown c more where
  begun := begun_of_closed hclosed more
  called := called_of_closed hclosed more
  called_of_waiting := by
    intro hwaiting
    have hcalled := called_of_closed hclosed more
    rw [hwaiting] at hcalled
    exact List.prefix_nil.mp hcalled
  taken := exists_taken_of_closed hclosed more

/-- At any moment the producer has begun at most one read more than its reader has items and the
buffer has places, and a stream whose reader has closed it or has left winds down. -/
theorem begun_le_and_windsDown (capacity start stop : Nat) (ms : List Move) :
    (begun ms (begin capacity start stop)).length ≤
        ((begin capacity start stop).run ms).range.taken.length + capacity + 1 ∧
      (((begin capacity start stop).run ms).range.closed = true →
        ∀ more, WindsDown ((begin capacity start stop).run ms) more) := by
  have hahead := ((abreast_begin capacity start stop).run ms).ahead
  rw [Nat.zero_add] at hahead
  exact ⟨hahead, windsDown_of_closed⟩

theorem called_looks_of_close {k : Cache} {tip : Nat} (hget : k.get 0 = .ok none)
    (htip : k.latestHeight = some tip) :
    called [.look k, .look k] ((begin 1 0 0).run [.proceed, .close]) = [0] := by
  simp [called, begin, Range.begin, step, Range.after, Range.proceed, Range.heightAt?, Range.span,
    Range.close, Range.look, ReadPhase.look, firstLook, secondLook, hget, htip, Producer.called,
    Producer.asks?]

/-- The reader can close the stream after the producer has turned to a height and before it has
looked for it in the cache. The cache does not have the height, and the node is called for it. -/
theorem not_forall_called_eq_nil : ¬ ∀ (capacity start stop : Nat) (ms more : List Move),
    0 < capacity → ((begin capacity start stop).run ms).range.closed = true →
      called more ((begin capacity start stop).run ms) = [] := by
  intro h
  obtain ⟨k, -, hk⟩ := Cache.add_of_fresh (c := Cache.empty .standard 1) (h := 1)
    (b := Sample.marked 1 2 1) rfl rfl rfl
  have hcalled := called_looks_of_close (hk.get_of_lt Nat.one_pos) hk.latestHeight_eq
  rw [h 1 0 0 [.proceed, .close] [.look k, .look k] Nat.one_pos rfl] at hcalled
  cases hcalled

/-- The reader takes nothing and closes the stream while the second of two cached blocks waits
behind the first one. -/
def hastyReader (k : Cache) : List Move :=
  [.proceed, .look k, .offer, .send, .proceed, .look k, .offer, .close]

theorem run_hastyReader {k : Cache} {a b : CompactBlock} (ha : k.get 0 = .ok (some a))
    (hb : k.get 1 = .ok (some b)) :
    (begin 1 0 2).run (hastyReader k) = {
      range := ⟨0, 2, 1, 1, .sending 1 (.ok b), [.ok a], [], true⟩
      reads := [(0, .ok a), (1, .ok b)]
      sent := [.ok a]
      late := false
      silenced := false } := by
  simp [hastyReader, begin, Range.begin, step, Range.after, Range.proceed, Range.heightAt?,
    Range.span, Range.look, ReadPhase.look, firstLook, ha, hb, Range.offer, Range.send,
    Range.hasRoom, Range.afterSend, Range.close, Move.read, Move.sent, Move.isLate, Move.isSilent]

/-- With room for one block two of three reads were begun. After the reader has closed the stream
the third one is not, and the first block is all that can be taken. -/
theorem begun_le_and_windsDown_of_hastyReader :
    ((begin 1 0 2).run (hastyReader pairCache)).range.closed = true ∧
      (begun (hastyReader pairCache) (begin 1 0 2)).length ≤ 2 ∧
      WindsDown ((begin 1 0 2).run (hastyReader pairCache)) [.send, .cancel, .take, .proceed] := by
  have hrun := run_hastyReader get_pairCache.1 get_pairCache.2
  have hclosed : ((begin 1 0 2).run (hastyReader pairCache)).range.closed = true := by rw [hrun]
  have htaken : ((begin 1 0 2).run (hastyReader pairCache)).range.taken.length = 0 := by
    rw [hrun, List.length_nil]
  obtain ⟨hahead, hwinds⟩ := begun_le_and_windsDown 1 0 2 (hastyReader pairCache)
  rw [htaken] at hahead
  exact ⟨hclosed, hahead, hwinds hclosed _⟩

end Course

end LightServer.Retrieval
