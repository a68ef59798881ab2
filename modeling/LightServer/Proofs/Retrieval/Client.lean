import Mathlib.Logic.Relation
import LightServer.Backend.Retrieval
import LightServer.Proofs.Retrieval.Backpressure

/-!
# One step of a client

A client is a request for a single block or the producer of a stream. `Request` takes a
request apart into steps, in the way in which a stream has its own, so that other things
can come between the two looks at the cache and between the question to the node and its
answer. Of each step of either client, `Client.advances` says what it does to the height
that is being read, to the cache, and to the list of the heights that the node was called
for.
-/

namespace LightServer

variable {ν : Type}

/-- The same access, with a list of the fetched heights beside the world of the node. -/
def NodeAccess.logging (p : NodeAccess ν) : NodeAccess (ν × List Nat) where
  call method params w :=
    let (reply, v) := p.call method params w.1
    (reply, (v, w.2))
  fetch height w :=
    let ((delay, ask), v) := p.fetch height w.1
    ((delay, fun w =>
      let (reply, v) := ask w.1
      (reply, (v, w.2))), (v, w.2 ++ [height]))

def Fetch.Quiet : Fetch (ν × List Nat) → Prop
  | waiting _ ask => ∀ w, (ask w).2.2 = w.2
  | asked _ _ => True

namespace Backend

open LightServer.Retrieval

structure Request (ν : Type) where
  height : Nat
  phase : ReadPhase
  pending : Option (Fetch ν)

namespace Request

def begin (height : Nat) : Request ν := ⟨height, .looking, none⟩

def answered (item : Item) (q : Request ν) : Request ν := ⟨q.height, .done item, none⟩

def step? (p : NodeAccess ν) (q : Request ν) (s : Backend ν) :
    Option (Request ν × Backend ν) :=
  match q.pending with
  | some f =>
      if s.now < f.ready then none
      else
        match f with
        | .waiting _ ask =>
            let ((ready, reply), s) := s.askNode ask
            some ({ q with pending := some (.asked ready reply) }, s)
        | .asked _ reply =>
            let item := settle q.height reply
            some (q.answered item, Stream.served "node" (.done item) s)
  | none =>
      match q.phase with
      | .done _ => none
      | .asking =>
          let (f, s) := s.beginFetch p q.height
          some ({ q with pending := some f }, s)
      | phase =>
          let phase := phase.look q.height s.cache
          some ({ q with phase }, Stream.served "cache" phase s)

inductive Alone (p : NodeAccess ν) : Request ν × Backend ν → Request ν × Backend ν → Prop where
  | step {q : Request ν} {s : Backend ν} {next : Request ν × Backend ν}
      (h : q.step? p s = some next) : Alone p (q, s) next
  | wait {q : Request ν} {s : Backend ν} {f : Fetch ν} (h : q.pending = some f) :
      Alone p (q, s) (q, s.waitUntil f.ready)

theorem not_now_lt_ready_waitUntil (t : Nat) (s : Backend ν) : ¬ (s.waitUntil t).now < t :=
  Nat.not_lt.mpr (Nat.le_max_right _ _)

theorem alone_endFetch (p : NodeAccess ν) (height : Nat) (f : Fetch ν) (s : Backend ν) :
    Relation.ReflTransGen (Alone p) (⟨height, .asking, some f⟩, s)
      ((begin height).answered (settle height (s.endFetch f).1),
        Stream.served "node" (.done (settle height (s.endFetch f).1)) (s.endFetch f).2) := by
  have hasked : ∀ (ready : Nat) (reply : FetchReply) (s : Backend ν),
      Relation.ReflTransGen (Alone p) (⟨height, .asking, some (.asked ready reply)⟩, s)
        ((begin height).answered (settle height reply),
          Stream.served "node" (.done (settle height reply)) (s.waitUntil ready)) := by
    intro ready reply s
    have hanswer : step? p ⟨height, .asking, some (.asked ready reply)⟩ (s.waitUntil ready) =
        some ((begin height).answered (settle height reply),
          Stream.served "node" (.done (settle height reply)) (s.waitUntil ready)) :=
      if_neg (not_now_lt_ready_waitUntil ready s)
    exact (Relation.ReflTransGen.single (.wait (f := .asked ready reply) rfl)).tail (.step hanswer)
  cases f with
  | asked ready reply => exact hasked ready reply s
  | waiting ready ask =>
      have hask : step? p ⟨height, .asking, some (.waiting ready ask)⟩ (s.waitUntil ready) =
          some (⟨height, .asking, some (.asked ((s.waitUntil ready).askNode ask).1.1
            ((s.waitUntil ready).askNode ask).1.2)⟩, ((s.waitUntil ready).askNode ask).2) :=
        if_neg (not_now_lt_ready_waitUntil ready s)
      exact ((Relation.ReflTransGen.single (.wait (f := .waiting ready ask) rfl)).tail
        (.step hask)).trans (hasked _ _ _)

/-- A request that nothing comes in between reads its block as if at once. -/
theorem alone_readBlock (p : NodeAccess ν) (height : Nat) (s : Backend ν) :
    Relation.ReflTransGen (Alone p) (begin height, s)
      ((begin height).answered (s.readBlock p height).1, (s.readBlock p height).2) := by
  have hfirst : Alone p (begin height, s)
      (⟨height, ReadPhase.looking.look height s.cache, none⟩,
        Stream.served "cache" (ReadPhase.looking.look height s.cache) s) := .step rfl
  unfold readBlock ReadPhase.lookTwice
  simp only [ReadPhase.look] at hfirst ⊢
  cases hlook : firstLook height s.cache with
  | some item =>
      rw [hlook] at hfirst
      cases item with
      | ok b => exact .single hfirst
      | error e => exact .single hfirst
  | none =>
      rw [hlook] at hfirst
      have hsecond : Alone p (⟨height, .checking, none⟩, s)
          (⟨height, ReadPhase.checking.look height s.cache, none⟩,
            Stream.served "cache" (ReadPhase.checking.look height s.cache) s) := .step rfl
      simp only [ReadPhase.look] at hsecond ⊢
      cases hcheck : secondLook height s.cache with
      | error e =>
          rw [hcheck] at hsecond
          exact (Relation.ReflTransGen.single hfirst).tail hsecond
      | ok tip =>
          rw [hcheck] at hsecond
          have hfetch : Alone p (⟨height, .asking, none⟩, s)
              (⟨height, .asking, some (s.beginFetch p height).1⟩, (s.beginFetch p height).2) :=
            .step rfl
          have hend := alone_endFetch p height (s.beginFetch p height).1 (s.beginFetch p height).2
          refine (((Relation.ReflTransGen.single hfirst).tail hsecond).tail hfetch).trans ?_
          simp only [fetch]
          cases hitem : settle height
              ((s.beginFetch p height).2.endFetch (s.beginFetch p height).1).1 with
          | ok b =>
              rw [hitem] at hend
              exact hend
          | error e =>
              rw [hitem] at hend
              exact hend

end Request

/-- Who waits for blocks: a request for one of them, or the producer of a stream. -/
inductive Client (ν : Type) where
  | request (q : Request ν)
  | stream (st : Stream ν)

/-- How far a client has come with the height at which it is. The node is called from the time
that it is asked until the client goes on. -/
structure Stage where
  height : Nat
  phase : ReadPhase
  calling : Bool

namespace Stage

def looks (g : Stage) : Bool :=
  match g.phase with
  | .looking | .checking => true
  | .asking | .done _ => false

def answer? (g : Stage) : Option Item :=
  match g.phase with
  | .done item => some item
  | _ => none

end Stage

def stageOf? (r : Range) (calling : Bool) : Option Stage :=
  match r.producer with
  | .reading height phase => some ⟨height, phase, calling⟩
  | _ => none

namespace Client

def step? (p : NodeAccess ν) : Client ν → Backend ν → Option (Client ν × Backend ν)
  | request q, s => (q.step? p s).map fun next => (request next.1, next.2)
  | stream st, s => (st.step? p s).map fun next => (stream next.1, next.2)

def stage? : Client ν → Option Stage
  | request q => some ⟨q.height, q.phase, q.pending.isSome⟩
  | stream st => stageOf? st.range st.pending.isSome

def pending : Client ν → Option (Fetch ν)
  | request q => q.pending
  | stream st => st.pending

/-- A fetch is under way only while the node is asked for a height, and it calls for no other. -/
def Sane (cl : Client (ν × List Nat)) : Prop :=
  ∀ f ∈ cl.pending, f.Quiet ∧ ∃ height, cl.stage? = some ⟨height, .asking, true⟩

end Client

/-- What a step can do to the reading of a client that finds the cache `c`, and the heights that
the node is called for in it. -/
inductive Progress (c : Cache) : Option Stage → Option Stage → List Nat → Prop where
  | idles : Progress c none none []
  | begins (height : Nat) : Progress c none (some ⟨height, .looking, false⟩) []
  | looks (height : Nat) :
      Progress c (some ⟨height, .looking, false⟩)
        (some ⟨height, ReadPhase.looking.look height c, false⟩) []
  | checks (height : Nat) :
      Progress c (some ⟨height, .checking, false⟩)
        (some ⟨height, ReadPhase.checking.look height c, false⟩) []
  | calls (height : Nat) :
      Progress c (some ⟨height, .asking, false⟩) (some ⟨height, .asking, true⟩) [height]
  | waits (height : Nat) :
      Progress c (some ⟨height, .asking, true⟩) (some ⟨height, .asking, true⟩) []
  | answers (height : Nat) (reply : FetchReply) :
      Progress c (some ⟨height, .asking, true⟩)
        (some ⟨height, .done (settle height reply), false⟩) []
  | leaves (g : Stage) (hlooks : g.looks = false) : Progress c (some g) none []

variable {p : NodeAccess ν} {s s' : Backend (ν × List Nat)}

@[simp] theorem cache_served (source : String) (phase : ReadPhase) (s : Backend ν) :
    (Stream.served source phase s).cache = s.cache := by
  rcases phase with _ | _ | _ | (_ | _) <;> rfl

@[simp] theorem world_served (source : String) (phase : ReadPhase) (s : Backend ν) :
    (Stream.served source phase s).world = s.world := by
  rcases phase with _ | _ | _ | (_ | _) <;> rfl

@[simp] theorem cache_countEnd (r : Range) (s : Backend ν) :
    (Stream.countEnd r s).cache = s.cache := by
  unfold Stream.countEnd
  split <;> rfl

@[simp] theorem world_countEnd (r : Range) (s : Backend ν) :
    (Stream.countEnd r s).world = s.world := by
  unfold Stream.countEnd
  split <;> rfl

/-- All that a step of a client comes to. The cache stays as it is, and the node is called for the
heights `called`. -/
structure Advances (cl cl' : Client (ν × List Nat)) (s s' : Backend (ν × List Nat))
    (called : List Nat) : Prop where
  sane : cl'.Sane
  cache : s'.cache = s.cache
  log : s'.world.2 = s.world.2 ++ called
  progress : Progress s.cache cl.stage? cl'.stage? called

theorem quiet_beginFetch (p : NodeAccess ν) (height : Nat) (s : Backend (ν × List Nat)) :
    (s.beginFetch p.logging height).1.Quiet := fun _ => rfl

theorem Request.advances {q q' : Request (ν × List Nat)} (hsane : (Client.request q).Sane)
    (h : q.step? p.logging s = some (q', s')) :
    ∃ called, Advances (.request q) (.request q') s s' called := by
  rcases q with ⟨height, phase, _ | f⟩
  · cases phase with
    | looking =>
        cases h
        exact ⟨[], nofun, cache_served _ _ _, by rw [world_served, List.append_nil], .looks height⟩
    | checking =>
        cases h
        exact ⟨[], nofun, cache_served _ _ _, by rw [world_served, List.append_nil], .checks height⟩
    | asking =>
        cases h
        refine ⟨[height], ?_, rfl, rfl, .calls height⟩
        rintro f ⟨⟩
        exact ⟨quiet_beginFetch p height s, height, rfl⟩
    | done item => cases h
  · obtain ⟨hquiet, _, hstage⟩ := hsane f rfl
    cases hstage
    simp only [step?] at h
    split at h
    · cases h
    · cases f with
      | waiting ready ask =>
          cases h
          refine ⟨[], ?_, rfl, ?_, .waits height⟩
          · rintro f ⟨⟩
            exact ⟨trivial, height, rfl⟩
          · exact (hquiet s.world).trans (List.append_nil _).symm
      | asked ready reply =>
          cases h
          exact ⟨[], nofun, cache_served _ _ _, by rw [world_served, List.append_nil],
            .answers height reply⟩

variable {st st' : Stream (ν × List Nat)} {r : Range} {height : Nat} {item : Item}

theorem stageOf?_of_reading {phase : ReadPhase} (hproducer : r.producer = .reading height phase)
    (calling : Bool) : stageOf? r calling = some ⟨height, phase, calling⟩ := by
  unfold stageOf?
  rw [hproducer]

theorem stageOf?_eq_none (hproducer : r.producer.reads? = none) (calling : Bool) :
    stageOf? r calling = none := by
  unfold stageOf?
  split
  next hreading =>
    rw [hreading] at hproducer
    cases hproducer
  · rfl

theorem producer_of_stageOf? {g : Stage} {calling : Bool} (h : stageOf? r calling = some g) :
    r.producer = .reading g.height g.phase := by
  unfold stageOf? at h
  split at h
  next hreading =>
    cases h
    exact hreading
  · cases h

theorem reads?_cancel (hproducer : r.producer = .sending height item) :
    r.cancel.producer.reads? = none := by
  unfold Range.cancel
  simp only [hproducer]
  split
  · rfl
  · rw [hproducer]
    rfl

theorem reads?_send (hproducer : r.producer = .sending height item) :
    r.send.producer.reads? = none := by
  unfold Range.send
  simp only [hproducer]
  split
  · cases item <;> rfl
  · rw [hproducer]
    rfl

theorem reads?_expire (hproducer : r.producer = .sending height item) :
    r.expire.producer.reads? = none := by
  unfold Range.expire
  simp only [hproducer]
  rfl

theorem progress_proceed (c : Cache) (hproducer : r.producer = .next) :
    Progress c none (stageOf? r.proceed false) [] := by
  unfold Range.proceed
  simp only [hproducer]
  split
  · exact .idles
  next height _ =>
    split
    · exact .idles
    · exact .begins height

/-- The stream moves to another state of its range, with no fetch under way. -/
theorem Stream.advances_move {s₀ : Backend (ν × List Nat)} {before : Stream (ν × List Nat)}
    (hfree : st.pending = none) (hcache : s₀.cache = s.cache) (hworld : s₀.world = s.world)
    (hprogress : Progress s.cache (Client.stream before).stage? (stageOf? r false) [])
    (h : st.move r s₀ = some (st', s')) :
    ∃ called, Advances (.stream before) (.stream st') s s' called := by
  cases h
  have hfree' : (st.withRange r).pending = none := hfree
  refine ⟨[], ?_, (cache_countEnd r s₀).trans hcache, ?_, ?_⟩
  · intro f hf
    rw [Client.pending, hfree'] at hf
    cases hf
  · rw [world_countEnd, hworld, List.append_nil]
  · rw [Client.stage?.eq_def (.stream (st.withRange r))]
    simp only [hfree']
    exact hprogress

theorem Stream.advances_of_idle (hfree : st.pending = none)
    (h : st.step? p.logging s = some (st', s')) :
    ∃ called, Advances (.stream st) (.stream st') s s' called := by
  have hstage : (Client.stream st).stage? = stageOf? st.range false := by
    simp only [Client.stage?, hfree, Option.isSome_none]
  simp only [step?, hfree, stepReady] at h
  split at h
  next hnext =>
    refine advances_move hfree rfl rfl ?_ h
    rw [hstage, stageOf?_eq_none (by rw [hnext]; rfl)]
    exact progress_proceed s.cache hnext
  next height item hdone =>
    refine advances_move hfree rfl rfl ?_ h
    have hoffered : st.range.offer.producer.reads? = none := by
      simp only [Range.offer, hdone]
      rfl
    rw [hstage, stageOf?_of_reading hdone, stageOf?_eq_none hoffered]
    exact .leaves _ rfl
  next height hasking =>
    cases h
    refine ⟨[height], ?_, rfl, rfl, ?_⟩
    · rintro f ⟨⟩
      exact ⟨quiet_beginFetch p height s, height, stageOf?_of_reading hasking true⟩
    · change Progress s.cache _ (stageOf? st.range true) [height]
      rw [hstage, stageOf?_of_reading hasking, stageOf?_of_reading hasking]
      exact .calls height
  next height phase hdone hasking hreading =>
    refine advances_move hfree (cache_served _ _ _) (world_served _ _ _) ?_ h
    have hlooked : (st.range.look s.cache).producer =
        .reading height (phase.look height s.cache) := by
      simp only [Range.look, hreading]
    rw [hstage, stageOf?_of_reading hreading, stageOf?_of_reading hlooked]
    cases phase with
    | looking => exact .looks height
    | checking => exact .checks height
    | asking => exact absurd rfl hasking
    | done item => exact absurd rfl (hdone item)
  next height item hsending =>
    -- wherever a producer goes from sending, it is not to a height that it reads
    have hrest : ∀ r : Range, r.producer.reads? = none → st.move r s = some (st', s') →
        ∃ called, Advances (.stream st) (.stream st') s s' called := by
      intro r hreads hmove
      refine advances_move hfree rfl rfl ?_ hmove
      rw [hstage, stageOf?_eq_none (by rw [hsending]; rfl), stageOf?_eq_none hreads]
      exact .idles
    split at h
    · exact hrest _ (reads?_cancel hsending) h
    · split at h
      · exact hrest _ (reads?_send hsending) h
      · split at h
        · exact hrest _ (reads?_expire hsending) h
        · cases h
  · cases h

theorem Stream.advances_of_pending {f : Fetch (ν × List Nat)} (hpending : st.pending = some f)
    (hquiet : f.Quiet) (hproducer : st.range.producer = .reading height .asking)
    (h : st.step? p.logging s = some (st', s')) :
    ∃ called, Advances (.stream st) (.stream st') s s' called := by
  have hstage : (Client.stream st).stage? = some ⟨height, .asking, true⟩ := by
    simp only [Client.stage?, hpending, Option.isSome_some, stageOf?_of_reading hproducer]
  simp only [step?, hpending, stepPending] at h
  -- the reader has gone, or the fetch has waited long enough, or the deadline has passed
  split at h
  next hclosed =>
    refine advances_move rfl rfl rfl ?_ h
    have hcancelled : st.range.cancel.producer.reads? = none := by
      simp [Range.cancel, hclosed, Range.isEnded, hproducer, Range.finish, Producer.reads?]
    rw [hstage, stageOf?_eq_none hcancelled]
    exact .leaves _ rfl
  · split at h
    · cases f with
      | waiting ready ask =>
          cases h
          refine ⟨[], ?_, rfl, (hquiet s.world).trans (List.append_nil _).symm, ?_⟩
          · rintro f ⟨⟩
            exact ⟨trivial, height, stageOf?_of_reading hproducer true⟩
          · change Progress s.cache _ (stageOf? st.range true) []
            rw [hstage, stageOf?_of_reading hproducer]
            exact .waits height
      | asked ready reply =>
          have hanswer : (st.range.answer reply).producer =
              .reading height (.done (settle height reply)) := by
            simp only [Range.answer, hproducer]
          simp only [stepFetch, hanswer] at h
          refine advances_move rfl (cache_served _ _ _) (world_served _ _ _) ?_ h
          rw [hstage, stageOf?_of_reading hanswer]
          exact .answers height reply
    · split at h
      · refine advances_move rfl rfl rfl ?_ h
        have hcut : st.range.cut.producer.reads? = none := by
          simp only [Range.cut, hproducer]
          rfl
        rw [hstage, stageOf?_eq_none hcut]
        exact .leaves _ rfl
      · cases h

/-- A step of a client leaves the cache as it is, and of its reading it is one of the steps that
`Progress` lists. -/
theorem Client.advances {cl cl' : Client (ν × List Nat)} (hsane : cl.Sane)
    (h : cl.step? p.logging s = some (cl', s')) : ∃ called, Advances cl cl' s s' called := by
  cases cl with
  | request q =>
      obtain ⟨next, hstep, hnext⟩ := Option.map_eq_some_iff.mp h
      cases hnext
      exact Request.advances hsane hstep
  | stream st =>
      obtain ⟨next, hstep, hnext⟩ := Option.map_eq_some_iff.mp h
      cases hnext
      cases hpending : st.pending with
      | none => exact Stream.advances_of_idle hpending hstep
      | some f =>
          obtain ⟨hquiet, height, hstage⟩ := hsane f hpending
          exact Stream.advances_of_pending hpending hquiet (producer_of_stageOf? hstage) hstep

/-- A client that is at its looks does not have to wait. -/
theorem Client.exists_step?_of_looks {cl : Client (ν × List Nat)} {g : Stage} (hsane : cl.Sane)
    (hstage : cl.stage? = some g) (hlooks : g.looks = true) (p : NodeAccess (ν × List Nat))
    (s : Backend (ν × List Nat)) : ∃ next, cl.step? p s = some next := by
  -- a fetch that is under way belongs to a client that asks the node
  have hfree : cl.pending = none := by
    rw [Option.eq_none_iff_forall_ne_some]
    intro f hf
    obtain ⟨-, height, hasking⟩ := hsane f hf
    rw [hstage] at hasking
    cases hasking
    cases hlooks
  cases cl with
  | request q =>
      cases hstage
      rcases q with ⟨height, _ | _ | _ | item, pending⟩
      · cases hfree
        exact ⟨_, rfl⟩
      · cases hfree
        exact ⟨_, rfl⟩
      all_goals cases hlooks
  | stream st =>
      have hproducer := producer_of_stageOf? hstage
      have hpending : st.pending = none := hfree
      rcases g with ⟨height, _ | _ | _ | item, calling⟩
      · simp only [Client.step?, Stream.step?, hpending, Stream.stepReady, hproducer]
        exact ⟨_, rfl⟩
      · simp only [Client.step?, Stream.step?, hpending, Stream.stepReady, hproducer]
        exact ⟨_, rfl⟩
      all_goals cases hlooks

end Backend
end LightServer
