import LightServer.Retrieval.Range

/-!
# Courses of a stream

The producer, the reader and the clock act on a stream in any order. Each thing
that they can do is a `Move`, and a course is a stream after a number of moves
together with what is remembered of them: which reads were finished, which items
were put into the buffer, whether the deadline passed while the producer was
waiting, and whether an item was lost without a word to the reader. Nothing that
is remembered has an influence on the stream, so every order of moves is a
course.
-/

namespace LightServer.Retrieval

inductive Move where
  | proceed
  | look (k : Cache)
  | answer (reply : Except Node.SourceError (Option CompactBlock))
  | offer
  | cut
  | cancel
  | send
  | expire
  | take
  | close
  | drop

def Stays (ms : List Move) : Prop := ∀ m ∈ ms, m ≠ .close ∧ m ≠ .drop

namespace Range

def heights (r : Range) : List Nat :=
  (List.range (r.span + 1)).map fun i => if r.start ≤ r.stop then r.start + i else r.start - i

@[simp] theorem length_heights (r : Range) : r.heights.length = r.span + 1 := by
  simp [heights]

theorem heightAt?_eq (r : Range) (i : Nat) : r.heightAt? i = r.heights[i]? := by
  unfold heightAt? heights
  rw [List.getElem?_map]
  by_cases hi : i ≤ r.span
  · rw [if_pos hi, List.getElem?_range (by omega)]
    rfl
  · rw [if_neg hi, List.getElem?_eq_none (by simp; omega)]
    rfl

/-- The stream after a move. A producer whose reader has gone does not get to see its deadline. -/
def after : Move → Range → Range
  | .proceed, r => r.proceed
  | .look k, r => r.look k
  | .answer reply, r => r.answer reply
  | .offer, r => r.offer
  | .cut, r => r.cut
  | .cancel, r => r.cancel
  | .send, r => r.send
  | .expire, r => if r.closed then r else r.expire
  | .take, r => r.take
  | .close, r => r.close
  | .drop, r => r.drop

end Range

namespace Move

def read : Move → Range → List (Nat × Item)
  | .offer, r =>
      match r.producer with
      | .reading height (.done item) => [(height, item)]
      | _ => []
  | _, _ => []

def sent : Move → Range → List Item
  | .send, r =>
      match r.producer with
      | .sending _ item => if r.closed || !r.hasRoom then [] else [item]
      | _ => []
  | .expire, r =>
      match r.producer with
      | .sending height _ =>
          if r.closed || !r.hasRoom then [] else [.error (.deadlineExceeded height)]
      | _ => []
  | _, _ => []

def isLate : Move → Range → Bool
  | .cut, r =>
      match r.producer with
      | .reading _ .asking => true
      | _ => false
  | .expire, r =>
      match r.producer with
      | .sending _ _ => !r.closed
      | _ => false
  | _, _ => false

/-- The deadline passes while the item of the producer waits, and there is no room to say so. -/
def isSilent : Move → Range → Bool
  | .expire, r =>
      match r.producer with
      | .sending _ _ => !r.closed && !r.hasRoom
      | _ => false
  | _, _ => false

end Move

/-- A stream with what is remembered of its moves. -/
structure Course where
  range : Range
  reads : List (Nat × Item)
  sent : List Item
  late : Bool
  silenced : Bool

namespace Course

def begin (capacity start stop : Nat) : Course :=
  ⟨Range.begin capacity start stop, [], [], false, false⟩

def step (m : Move) (c : Course) : Course where
  range := c.range.after m
  reads := c.reads ++ m.read c.range
  sent := c.sent ++ m.sent c.range
  late := c.late || m.isLate c.range
  silenced := c.silenced || m.isSilent c.range

def run (ms : List Move) (c : Course) : Course := ms.foldl (fun c m => c.step m) c

@[simp] theorem run_nil (c : Course) : c.run [] = c := rfl

@[simp] theorem run_cons (m : Move) (ms : List Move) (c : Course) :
    c.run (m :: ms) = (c.step m).run ms := rfl

/-- What every move preserves holds of every course. -/
theorem run_induction {P : Course → Prop} {c : Course} (hc : P c)
    (hstep : ∀ m c, P c → P (c.step m)) (ms : List Move) : P (c.run ms) := by
  induction ms generalizing c with
  | nil => exact hc
  | cons m ms ih => exact ih (hstep m c hc)

inductive Step (c : Course) : Move → Course → Prop where
  | idle (m : Move) : Step c m c
  | read {height : Nat} (hproducer : c.range.producer = .next)
      (hheight : c.range.heights[c.range.index]? = some height) (hopen : c.range.closed = false) :
      Step c .proceed { c with range := { c.range with producer := .reading height .looking } }
  | complete (hproducer : c.range.producer = .next)
      (hheight : c.range.heights[c.range.index]? = none) :
      Step c .proceed { c with range := c.range.finish .complete }
  | leave (hproducer : c.range.producer = .next) (hclosed : c.range.closed = true) :
      Step c .proceed { c with range := c.range.finish .cancelled }
  | look {height : Nat} {phase : ReadPhase} (k : Cache)
      (hproducer : c.range.producer = .reading height phase) :
      Step c (.look k)
        { c with range := { c.range with producer := .reading height (phase.look height k) } }
  | answer {height : Nat} (reply : Except Node.SourceError (Option CompactBlock))
      (hproducer : c.range.producer = .reading height .asking) :
      Step c (.answer reply) { c with
        range := { c.range with producer := .reading height (.done (settle height reply)) } }
  | offer {height : Nat} {item : Item}
      (hproducer : c.range.producer = .reading height (.done item)) :
      Step c .offer { c with
        range := { c.range with producer := .sending height item }
        reads := c.reads ++ [(height, item)] }
  | cut {height : Nat} (hproducer : c.range.producer = .reading height .asking) :
      Step c .cut { c with
        range := { c.range with
          producer := .sending height (.error (.deadlineExceeded height)) }
        late := true }
  | cancel (hclosed : c.range.closed = true) (hnext : c.range.producer ≠ .next)
      (hended : c.range.isEnded = false) :
      Step c .cancel { c with range := c.range.finish .cancelled }
  | sendBlock {height : Nat} {b : CompactBlock}
      (hproducer : c.range.producer = .sending height (.ok b))
      (hopen : c.range.closed = false) (hroom : c.range.hasRoom = true) :
      Step c .send { c with
        range := { c.range with
          buffer := c.range.buffer ++ [.ok b]
          producer := .next
          index := c.range.index + 1 }
        sent := c.sent ++ [.ok b] }
  | sendError {height : Nat} {e : Error}
      (hproducer : c.range.producer = .sending height (.error e))
      (hopen : c.range.closed = false) (hroom : c.range.hasRoom = true) :
      Step c .send { c with
        range := { c.range with
          buffer := c.range.buffer ++ [.error e]
          producer := .ended .failed }
        sent := c.sent ++ [.error e] }
  | tell {height : Nat} {item : Item} (hproducer : c.range.producer = .sending height item)
      (hopen : c.range.closed = false) (hroom : c.range.hasRoom = true) :
      Step c .expire { c with
        range := { c.range with
          buffer := c.range.buffer ++ [.error (.deadlineExceeded height)]
          producer := .ended .failed }
        sent := c.sent ++ [.error (.deadlineExceeded height)]
        late := true }
  | silence {height : Nat} {item : Item} (hproducer : c.range.producer = .sending height item)
      (hopen : c.range.closed = false) (hroom : c.range.hasRoom = false) :
      Step c .expire { c with
        range := c.range.finish .failed
        late := true
        silenced := true }
  | take {item : Item} {rest : List Item} (hbuffer : c.range.buffer = item :: rest) :
      Step c .take { c with
        range := { c.range with buffer := rest, taken := c.range.taken ++ [item] } }
  | close : Step c .close { c with range := c.range.close }
  | drop : Step c .drop { c with range := c.range.drop }

section Step

/-- Of most moves nothing is remembered. -/
theorem step_of_quiet {m : Move} {c : Course} (hread : m.read c.range = [])
    (hsent : m.sent c.range = []) (hlate : m.isLate c.range = false)
    (hsilent : m.isSilent c.range = false) :
    c.step m = { c with range := c.range.after m } := by
  unfold step
  rw [hread, hsent, hlate, hsilent]
  simp

theorem Step.of_idle {m : Move} {c : Course} (hrange : c.range.after m = c.range)
    (hread : m.read c.range = []) (hsent : m.sent c.range = [])
    (hlate : m.isLate c.range = false) (hsilent : m.isSilent c.range = false) :
    Step c m (c.step m) := by
  rw [step_of_quiet hread hsent hlate hsilent, hrange]
  exact Step.idle m

theorem step_proceed (c : Course) : Step c .proceed (c.step .proceed) := by
  rw [step_of_quiet rfl rfl rfl rfl]
  simp only [Range.after, Range.proceed]
  split
  next hproducer =>
    split
    next hheight =>
      rw [Range.heightAt?_eq] at hheight
      exact Step.complete hproducer hheight
    next height hheight =>
      rw [Range.heightAt?_eq] at hheight
      split
      next hclosed => exact Step.leave hproducer hclosed
      next hopen => exact Step.read hproducer hheight (Bool.not_eq_true _ ▸ hopen)
  next => exact Step.idle _

theorem step_look (k : Cache) (c : Course) : Step c (.look k) (c.step (.look k)) := by
  rw [step_of_quiet rfl rfl rfl rfl]
  simp only [Range.after, Range.look]
  split
  next height phase hproducer => exact Step.look k hproducer
  next => exact Step.idle _

theorem step_answer (reply : Except Node.SourceError (Option CompactBlock)) (c : Course) :
    Step c (.answer reply) (c.step (.answer reply)) := by
  rw [step_of_quiet rfl rfl rfl rfl]
  simp only [Range.after, Range.answer]
  split
  next height hproducer => exact Step.answer reply hproducer
  next => exact Step.idle _

theorem step_offer (c : Course) : Step c .offer (c.step .offer) := by
  by_cases hdone : ∃ height item, c.range.producer = .reading height (.done item)
  · obtain ⟨height, item, hproducer⟩ := hdone
    have hstep := Step.offer hproducer
    simpa [step, Range.after, Range.offer, Move.read, Move.sent, Move.isLate, Move.isSilent,
      hproducer] using hstep
  · have hne : ∀ height item, c.range.producer ≠ .reading height (.done item) :=
      fun height item hproducer => hdone ⟨height, item, hproducer⟩
    exact Step.of_idle (by simp only [Range.after, Range.offer]) (by simp only [Move.read]) rfl
      rfl rfl

theorem step_cut (c : Course) : Step c .cut (c.step .cut) := by
  by_cases hasking : ∃ height, c.range.producer = .reading height .asking
  · obtain ⟨height, hproducer⟩ := hasking
    have hstep := Step.cut hproducer
    simpa [step, Range.after, Range.cut, Move.read, Move.sent, Move.isLate, Move.isSilent,
      hproducer] using hstep
  · have hne : ∀ height, c.range.producer ≠ .reading height .asking :=
      fun height hproducer => hasking ⟨height, hproducer⟩
    exact Step.of_idle (by simp only [Range.after, Range.cut]) rfl rfl
      (by simp only [Move.isLate]) rfl

theorem step_cancel (c : Course) : Step c .cancel (c.step .cancel) := by
  rw [step_of_quiet rfl rfl rfl rfl]
  simp only [Range.after, Range.cancel]
  split
  next hgone =>
    simp only [Bool.and_eq_true, Bool.not_eq_true'] at hgone
    split
    next => exact Step.idle _
    next hnext => exact Step.cancel hgone.1 hnext hgone.2
  next => exact Step.idle _

theorem step_send (c : Course) : Step c .send (c.step .send) := by
  by_cases hsending : ∃ height item, c.range.producer = .sending height item
  · obtain ⟨height, item, hproducer⟩ := hsending
    by_cases hready : c.range.closed = false ∧ c.range.hasRoom = true
    · obtain ⟨hopen, hroom⟩ := hready
      cases item with
      | ok b =>
          have hstep := Step.sendBlock hproducer hopen hroom
          simpa [step, Range.after, Range.send, Range.afterSend, Move.read, Move.sent, Move.isLate,
            Move.isSilent, hproducer, hopen, hroom] using hstep
      | error e =>
          have hstep := Step.sendError hproducer hopen hroom
          simpa [step, Range.after, Range.send, Range.afterSend, Range.finish, Move.read, Move.sent,
            Move.isLate, Move.isSilent, hproducer, hopen, hroom] using hstep
    · have hwait : (!c.range.closed && c.range.hasRoom) = false := by simpa using hready
      have hnone : (c.range.closed || !c.range.hasRoom) = true := by
        rw [← Bool.not_not (c.range.closed || !c.range.hasRoom), Bool.not_or, Bool.not_not, hwait]
        rfl
      refine Step.of_idle ?_ rfl ?_ rfl rfl
      · simp only [Range.after, Range.send, hproducer, hwait, Bool.false_eq_true, if_false]
      · simp only [Move.sent, hproducer, hnone, if_true]
  · have hne : ∀ height item, c.range.producer ≠ .sending height item :=
      fun height item hproducer => hsending ⟨height, item, hproducer⟩
    exact Step.of_idle (by simp only [Range.after, Range.send]) rfl (by simp only [Move.sent]) rfl
      rfl

theorem step_expire (c : Course) : Step c .expire (c.step .expire) := by
  by_cases hsending : ∃ height item, c.range.producer = .sending height item
  · obtain ⟨height, item, hproducer⟩ := hsending
    cases hopen : c.range.closed with
    | true =>
        exact Step.of_idle (by simp [Range.after, hopen]) rfl
          (by simp [Move.sent, hproducer, hopen]) (by simp [Move.isLate, hproducer, hopen])
          (by simp [Move.isSilent, hproducer, hopen])
    | false =>
        cases hroom : c.range.hasRoom with
        | true =>
            have hstep := Step.tell hproducer hopen hroom
            simpa [step, Range.after, Range.expire, Move.read, Move.sent, Move.isLate,
              Move.isSilent, hproducer, hopen, hroom] using hstep
        | false =>
            have hstep := Step.silence hproducer hopen hroom
            simpa [step, Range.after, Range.expire, Range.finish, Move.read, Move.sent,
              Move.isLate, Move.isSilent, hproducer, hopen, hroom] using hstep
  · have hne : ∀ height item, c.range.producer ≠ .sending height item :=
      fun height item hproducer => hsending ⟨height, item, hproducer⟩
    refine Step.of_idle ?_ rfl (by simp only [Move.sent]) (by simp only [Move.isLate])
      (by simp only [Move.isSilent])
    simp only [Range.after, Range.expire, ite_self]

theorem step_take (c : Course) : Step c .take (c.step .take) := by
  rw [step_of_quiet rfl rfl rfl rfl]
  simp only [Range.after, Range.take]
  split
  next => exact Step.idle _
  next item rest hbuffer => exact Step.take hbuffer

theorem step_step (m : Move) (c : Course) : Step c m (c.step m) := by
  cases m with
  | proceed => exact step_proceed c
  | look k => exact step_look k c
  | answer reply => exact step_answer reply c
  | offer => exact step_offer c
  | cut => exact step_cut c
  | cancel => exact step_cancel c
  | send => exact step_send c
  | expire => exact step_expire c
  | take => exact step_take c
  | close =>
      rw [step_of_quiet rfl rfl rfl rfl]
      exact Step.close
  | drop =>
      rw [step_of_quiet rfl rfl rfl rfl]
      exact Step.drop

end Step

end Course

end LightServer.Retrieval
