/-!
# Outcomes that are no error

Computations that can fail give a value exactly where each of their steps does.
-/

namespace LightServer.Outcome

variable {ε α β : Type} {x : Except ε α}

theorem map_eq_ok_iff {f : α → β} {y : β} : x.map f = .ok y ↔ ∃ a, x = .ok a ∧ f a = y := by
  cases x <;> simp [Except.map]

theorem bind_eq_ok_iff {f : α → Except ε β} {y : β} :
    (x >>= f) = .ok y ↔ ∃ a, x = .ok a ∧ f a = .ok y := by
  cases x with
  | error e => exact iff_of_false nofun nofun
  | ok a => exact ⟨fun h => ⟨a, rfl, h⟩, fun ⟨_, ha, h⟩ => by cases ha; exact h⟩

end LightServer.Outcome
