import LightServer.Cache.Basic
import LightServer.Metrics.Basic
import LightServer.Node.Query

/-!
# What requests are answered from

Requests are answered from the cache and from the node. The node has a world of its
own, and access to it takes time: a call is made at once and its answer comes after a
number of milliseconds. A fetch may wait before it asks the node, and what it gives is
decided when it asks. The time is a number that only waiting changes, so a wait can be
limited by a deadline.
-/

namespace LightServer

abbrev FetchReply := Except Node.SourceError (Option CompactBlock)

/-- Something with the number of milliseconds after which it is there. -/
abbrev Delayed (α : Type) := Nat × α

/-- The access to a node with the world `ν`. A fetch gives the question that it asks after
its wait. -/
structure NodeAccess (ν : Type) where
  call : String → List Json → ν → Delayed Node.Reply × ν
  fetch : Nat → ν → Delayed (ν → Delayed FetchReply × ν) × ν

def NodeAccess.askBlock {ν : Type} (call : String → List Json → ν → Delayed Node.Reply × ν)
    (height : Nat) (w : ν) : Delayed FetchReply × ν :=
  let q := Node.Query.block height
  let ((delay, reply), w) := call q.method q.params w
  ((delay, (q.read reply).mapError .ofError), w)

def NodeAccess.ofCall {ν : Type} (call : String → List Json → ν → Delayed Node.Reply × ν) :
    NodeAccess ν :=
  ⟨call, fun height w => ((0, askBlock call height), w)⟩

/-- A fetch that is under way: it waits before it asks, or for the answer. -/
inductive Fetch (ν : Type) where
  | waiting (ready : Nat) (ask : ν → Delayed FetchReply × ν)
  | asked (ready : Nat) (reply : FetchReply)

def Fetch.ready {ν : Type} : Fetch ν → Nat
  | waiting t _ => t
  | asked t _ => t

structure Backend (ν : Type) where
  world : ν
  cache : Cache
  metrics : Metrics
  now : Nat

namespace Backend

variable {ν : Type}

def record (e : Metrics.Event) (s : Backend ν) : Backend ν :=
  { s with metrics := s.metrics.record e }

def waitUntil (t : Nat) (s : Backend ν) : Backend ν := { s with now := max s.now t }

def beginFetch (p : NodeAccess ν) (height : Nat) (s : Backend ν) : Fetch ν × Backend ν :=
  let ((delay, ask), world) := p.fetch height s.world
  (.waiting (s.now + delay) ask, { s with world })

/-- Asks the node, and gives the moment at which the answer is there. -/
def askNode (ask : ν → Delayed FetchReply × ν) (s : Backend ν) : (Nat × FetchReply) × Backend ν :=
  let ((delay, reply), world) := ask s.world
  ((s.now + delay, reply), { s with world })

def endFetch (f : Fetch ν) (s : Backend ν) : FetchReply × Backend ν :=
  match f with
  | .asked ready reply => (reply, s.waitUntil ready)
  | .waiting ready ask =>
      let ((ready, reply), s) := (s.waitUntil ready).askNode ask
      (reply, s.waitUntil ready)

def fetch (p : NodeAccess ν) (height : Nat) (s : Backend ν) : FetchReply × Backend ν :=
  let (f, s) := s.beginFetch p height
  s.endFetch f

/-- Something that is ready after `delay` is there by the deadline. What is ready at
once always is. -/
def InTime (s : Backend ν) (delay : Nat) (deadline : Option Nat) : Prop :=
  delay = 0 ∨ ∀ d ∈ deadline, s.now + delay ≤ d

instance (s : Backend ν) (delay : Nat) (deadline : Option Nat) :
    Decidable (s.InTime delay deadline) := by
  unfold InTime
  cases deadline <;> simp <;> infer_instance

def call (p : NodeAccess ν) (deadline : Option Nat) (method : String) (params : List Json)
    (s : Backend ν) : Option Node.Reply × Backend ν :=
  let ((delay, reply), world) := p.call method params s.world
  let s := { s with world }
  if s.InTime delay deadline then (some reply, s.waitUntil (s.now + delay))
  else (none, s.waitUntil (deadline.getD s.now))

def askBy {α : Type} (p : NodeAccess ν) (deadline : Option Nat) (q : Node.Query α)
    (s : Backend ν) : Option (Except Node.Error α) × Backend ν :=
  let (reply, s) := s.call p deadline q.method q.params
  (reply.map q.read, s)

def ask {α : Type} (p : NodeAccess ν) (q : Node.Query α) (s : Backend ν) :
    Except Node.Error α × Backend ν :=
  let ((delay, reply), world) := p.call q.method q.params s.world
  (q.read reply, { s with world, now := s.now + delay })

end Backend

end LightServer
