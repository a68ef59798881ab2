import LightServer.Proofs.Cache.Offer
import LightServer.Proofs.Chain.StoredForm

/-!
# Runs of offers

A cache that starts empty and is offered one block after the other is at any
time either untouched or holds a run of the offered blocks. `Sound P c` says
so, with `P` for whatever is known of the offered blocks. Only the first block
that is stored makes the difference, and there is no way back: a block that
cuts the run off at its first height is stored there, because nothing is left
that it could fail to extend.
-/

namespace LightServer

theorem EntryCodec.faithful_standard {b : CompactBlock} (hb : b.Storable) :
    EntryCodec.standard.Faithful b := by
  intro data hdata
  cases hdata
  simp only [standard, Encoding.decode_encode hb]

namespace Cache

/-- The cache is untouched, or it holds a run of blocks with the property `P`. -/
inductive Sound (P : CompactBlock → Prop) (c : Cache) : Prop where
  | fresh (hwindow : c.window = none) (hentries : c.entries = ∅)
  | filled {first : Nat} {bs : List CompactBlock} (hc : c.Holds first bs) (hP : ∀ b ∈ bs, P b)

variable {P : CompactBlock → Prop} {c : Cache} {h : Nat} {b : CompactBlock}

theorem addAll_cons (p : Nat × CompactBlock) (offers : List (Nat × CompactBlock)) (c : Cache) :
    c.addAll (p :: offers) = (c.add p.1 p.2).2.addAll offers := rfl

theorem codec_addAll (offers : List (Nat × CompactBlock)) (c : Cache) :
    (c.addAll offers).codec = c.codec := by
  induction offers generalizing c with
  | nil => rfl
  | cons p offers ih => exact (ih (c.add p.1 p.2).2).trans (codec_add p.1 p.2 c)

theorem capacity_addAll (offers : List (Nat × CompactBlock)) (c : Cache) :
    (c.addAll offers).capacity = c.capacity := by
  induction offers generalizing c with
  | nil => rfl
  | cons p offers ih => exact (ih (c.add p.1 p.2).2).trans (capacity_add p.1 p.2 c)

theorem sound_empty (P : CompactBlock → Prop) (k : EntryCodec) (n : Nat) :
    Sound P (empty k n) :=
  Sound.fresh rfl rfl

/-- A cache that holds a run keeps one, of blocks that it held or was offered. -/
theorem Holds.add_filled {first : Nat} {bs : List CompactBlock} (hc : c.Holds first bs)
    (b : CompactBlock) (h : Nat) :
    ∃ first' bs', (c.add h b).2.Holds first' bs' ∧ ∀ x ∈ bs', x ∈ bs ∨ x = b := by
  cases hdata : c.codec.encode b with
  | error err =>
      rw [add_of_encode_error hdata]
      exact ⟨first, bs, hc, fun x hx => Or.inl hx⟩
  | ok data =>
      have hoffer := hc.offer hdata h
      generalize c.add h b = r at hoffer ⊢
      cases hoffer with
      | below _ hc' => exact ⟨h, [b], hc', by simp⟩
      | onTop _ _ _ _ hc' =>
          refine ⟨first, _, hc', fun x hx => ?_⟩
          rcases List.mem_append.mp hx with hold | hnew
          · exact Or.inl (List.mem_of_mem_take hold)
          · exact Or.inr (List.mem_singleton.mp hnew)
      | pushOut _ _ _ hc' =>
          refine ⟨first + 1, _, hc', fun x hx => ?_⟩
          rcases List.mem_append.mp hx with hold | hnew
          · exact Or.inl (List.mem_of_mem_tail hold)
          · exact Or.inr (List.mem_singleton.mp hnew)
      | reorg _ _ _ hc' => exact ⟨first, _, hc', fun x hx => Or.inl (List.mem_of_mem_take hx)⟩
      | gap _ => exact ⟨first, bs, hc, fun x hx => Or.inl hx⟩

theorem forall_of_added {bs bs' : List CompactBlock} (hP : ∀ x ∈ bs, P x) (hb : P b)
    (hsub : ∀ x ∈ bs', x ∈ bs ∨ x = b) : ∀ x ∈ bs', P x := by
  intro x hx
  rcases hsub x hx with hold | rfl
  · exact hP x hold
  · exact hb

/-- There is no way back: whatever a cache that holds a run is offered, it holds a run. -/
theorem Holds.addAll_filled {first : Nat} {bs : List CompactBlock} (hc : c.Holds first bs)
    (hP : ∀ b ∈ bs, P b) {offers : List (Nat × CompactBlock)} (hoffers : ∀ p ∈ offers, P p.2) :
    ∃ first' bs', (c.addAll offers).Holds first' bs' ∧ ∀ b ∈ bs', P b := by
  induction offers generalizing c first bs with
  | nil => exact ⟨first, bs, hc, hP⟩
  | cons p offers ih =>
      obtain ⟨first', bs', hc', hsub⟩ := hc.add_filled p.2 p.1
      rw [addAll_cons]
      exact ih hc' (forall_of_added hP (hoffers p List.mem_cons_self) hsub)
        fun q hq => hoffers q (List.mem_cons_of_mem p hq)

theorem Sound.add (hc : Sound P c) (hb : P b) (h : Nat) : Sound P (c.add h b).2 := by
  cases hc with
  | fresh hwindow hentries =>
      cases hdata : c.codec.encode b with
      | error err =>
          rw [add_of_encode_error hdata]
          exact Sound.fresh hwindow hentries
      | ok data =>
          obtain ⟨c', hadd, hc'⟩ := add_of_fresh (h := h) hwindow hentries hdata
          rw [hadd]
          exact Sound.filled hc' (by simpa using hb)
  | filled hc hP =>
      obtain ⟨first', bs', hc', hsub⟩ := hc.add_filled b h
      exact Sound.filled hc' (forall_of_added hP hb hsub)

theorem Sound.addAll (hc : Sound P c) {offers : List (Nat × CompactBlock)}
    (hoffers : ∀ p ∈ offers, P p.2) : Sound P (c.addAll offers) := by
  induction offers generalizing c with
  | nil => exact hc
  | cons p offers ih =>
      rw [addAll_cons]
      exact ih (hc.add (hoffers p List.mem_cons_self) p.1)
        fun q hq => hoffers q (List.mem_cons_of_mem p hq)

/-- The cache has come about by offers to an empty one. -/
def Reachable (c : Cache) : Prop :=
  ∃ maxEntries offers, (∀ p ∈ offers, p.2.Storable) ∧
    c = (empty .standard maxEntries).addAll offers

theorem Reachable.codec_eq (hc : c.Reachable) : c.codec = .standard := by
  obtain ⟨maxEntries, offers, -, rfl⟩ := hc
  exact codec_addAll offers _

theorem Reachable.sound (hc : c.Reachable) : Sound CompactBlock.Storable c := by
  obtain ⟨maxEntries, offers, hoffers, rfl⟩ := hc
  exact (sound_empty _ _ _).addAll hoffers

end Cache

end LightServer
