import LightServer.Gateway.Stream

/-!
# From an opened method to its responses

The responses to a request for a method with many responses are those to its items, or
the one to the error that kept it from being opened.
-/

namespace LightServer.Gateway

variable {ν : Type} {u : Setup ν} {e : Envelope} {s s₁ : Backend ν}

theorem streamEnvelope_of_opened {items : Items}
    (h : openItems u e.method e.params s = (.ok items, s₁)) : streamEnvelope u e s =
      ((items.read u (countRequest e.method "ok" s₁)).1.map (response e.id),
        (items.read u (countRequest e.method "ok" s₁)).2) := by
  unfold streamEnvelope
  simp only [h]
  rfl

theorem streamEnvelope_of_refused {err : ApiError}
    (h : openItems u e.method e.params s = (.error err, s₁)) : streamEnvelope u e s =
      ([errorResponse e.id err], countRequest e.method err.kind s₁) := by
  unfold streamEnvelope
  simp only [h]
  rfl

/-- A request is counted in the metrics, and nothing else changes. -/
theorem exists_countRequest_eq (method outcome : String) (s : Backend ν) :
    ∃ metrics, countRequest method outcome s = { s with metrics := metrics } := by
  unfold countRequest
  split <;> exact ⟨_, rfl⟩

theorem world_countRequest (method outcome : String) (s : Backend ν) :
    (countRequest method outcome s).world = s.world := by
  obtain ⟨metrics, hcounted⟩ := exists_countRequest_eq method outcome s
  rw [hcounted]

/-- What the node says in time is there if it is read. -/
theorem inTime_eq_ok_iff {α : Type} {operation : String} {r : Option (Except Node.Error α)}
    {x : α} : inTime operation r = .ok x ↔ r = some (.ok x) := by
  unfold inTime
  cases r with
  | none => simp
  | some r => cases r <;> simp [fromNode]

end LightServer.Gateway
