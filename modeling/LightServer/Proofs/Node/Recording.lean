import LightServer.Backend.Basic

/-!
# Calls that are written down

`recording` writes each call to the node down with its reply, so that it can be said what
the node was asked, and which answer something comes from. A call is there once whether
its answer comes in time or not, and what is heard of it is the answer or nothing.
-/

namespace LightServer

structure Consultation where
  method : String
  params : List Json
  reply : Node.Reply

def recording {ν : Type} (call : String → List Json → ν → Delayed Node.Reply × ν) (method : String)
    (params : List Json) (w : ν × List Consultation) :
    Delayed Node.Reply × (ν × List Consultation) :=
  let (answer, world) := call method params w.1
  (answer, (world, w.2 ++ [⟨method, params, answer.2⟩]))

/-- A call is made once, and its answer is heard if it is not late. -/
theorem Backend.call_cases {ν : Type} (p : NodeAccess ν) (deadline : Option Nat) (method : String)
    (params : List Json) (s : Backend ν) :
    (s.call p deadline method params).2.world = (p.call method params s.world).2 ∧
      ((s.call p deadline method params).1 = some (p.call method params s.world).1.2 ∨
        (s.call p deadline method params).1 = none) := by
  let answer := p.call method params s.world
  let s' : Backend ν := { s with world := answer.2 }
  by_cases hin : s'.InTime answer.1.1 deadline
  · have hcall : s.call p deadline method params =
        (some answer.1.2, s'.waitUntil (s'.now + answer.1.1)) := if_pos hin
    rw [hcall]
    exact ⟨rfl, .inl rfl⟩
  · have hcall : s.call p deadline method params =
        (none, s'.waitUntil (deadline.getD s'.now)) := if_neg hin
    rw [hcall]
    exact ⟨rfl, .inr rfl⟩

/-- An answer that is there at once is not late. -/
theorem Backend.askBy_of_instant {ν α : Type} {p : NodeAccess ν} {q : Node.Query α}
    {s : Backend ν} {reply : Node.Reply} {world : ν}
    (h : p.call q.method q.params s.world = ((0, reply), world)) (deadline : Option Nat) :
    s.askBy p deadline q = (some (q.read reply), { s with world }) := by
  have hin : Backend.InTime { s with world } 0 deadline := .inl rfl
  unfold Backend.askBy Backend.call
  simp only [h, if_pos hin, Backend.waitUntil, Nat.add_zero, Nat.max_self, Option.map_some]

/-- A question is written down with its answer, and what is heard is read from that. -/
theorem exists_askBy_recording {ν α : Type}
    {call : String → List Json → ν → Delayed Node.Reply × ν}
    {p : NodeAccess (ν × List Consultation)} (hcall : p.call = recording call)
    (deadline : Option Nat) (q : Node.Query α) (s : Backend (ν × List Consultation)) :
    ∃ reply, (s.askBy p deadline q).2.world.2 = s.world.2 ++ [⟨q.method, q.params, reply⟩] ∧
      ((s.askBy p deadline q).1 = some (q.read reply) ∨ (s.askBy p deadline q).1 = none) := by
  obtain ⟨hworld, hheard⟩ := s.call_cases p deadline q.method q.params
  rw [hcall] at hworld hheard
  refine ⟨(call q.method q.params s.world.1).1.2, congrArg Prod.snd hworld, ?_⟩
  unfold Backend.askBy
  rcases hheard with hheard | hheard
  · exact .inl (congrArg (Option.map q.read) hheard)
  · exact .inr (congrArg (Option.map q.read) hheard)

end LightServer
