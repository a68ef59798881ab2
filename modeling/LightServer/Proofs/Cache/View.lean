import LightServer.Proofs.Cache.Run

/-!
# The cache as its readers see it

Readers see the bounds of the window, the last height and, height by height,
the block that is cached there. `Unfilled` and `Filled` describe the two ways
in which these answers fit together, and no run of offers leads to any other:
before the first block is stored there is nothing anywhere, and afterwards
there always is a run of linked blocks between the bounds, within the limit,
and nothing outside of it.
-/

namespace LightServer

namespace Cache

def outcomes : List (Nat × CompactBlock) → Cache → List (Except CacheError AddOutcome)
  | [], _ => []
  | p :: offers, c => (c.add p.1 p.2).1 :: outcomes offers (c.add p.1 p.2).2

def Stores (offers : List (Nat × CompactBlock)) (c : Cache) : Prop :=
  ∃ evicted, Except.ok (.stored evicted) ∈ c.outcomes offers

structure Unfilled (c : Cache) : Prop where
  window : c.window = none
  entries : c.entries = ∅
  bounds : c.bounds = none
  latest : c.latestHeight = none
  get : ∀ h, c.get h = .ok none

/-- Readers find a run of linked blocks from `first` to `last`, at most `limit` of them, and
nothing else. -/
structure Filled (limit first last : Nat) (c : Cache) : Prop where
  bounds : c.bounds = some (first, last)
  latest : c.latestHeight = some last
  size_pos : 1 ≤ last + 1 - first
  size_le : last + 1 - first ≤ limit
  get_some : ∀ h, (∃ b, c.get h = .ok (some b)) ↔ first ≤ h ∧ h ≤ last
  get_none : ∀ h, c.get h = .ok none ↔ ¬ (first ≤ h ∧ h ≤ last)
  linked : ∀ h a b, c.get h = .ok (some a) → c.get (h + 1) = .ok (some b) → b.prevHash = a.hash

theorem unfilled_empty (k : EntryCodec) (n : Nat) : (empty k n).Unfilled where
  window := rfl
  entries := rfl
  bounds := rfl
  latest := rfl
  get h := get_of_entries rfl h

theorem Holds.filled {c : Cache} {first : Nat} {bs : List CompactBlock} (hc : c.Holds first bs)
    (hfaithful : ∀ b ∈ bs, c.codec.Faithful b) :
    c.Filled c.capacity first (first + bs.length - 1) where
  bounds := hc.bounds_eq
  latest := hc.latestHeight_eq
  size_pos := by
    have hpos := hc.length_pos
    omega
  size_le := by
    have hpos := hc.length_pos
    have hbounded := hc.bounded
    omega
  get_some h := by
    have hpos := hc.length_pos
    simp only [hc.get_eq_some_iff hfaithful, exists_blockAt?_iff]
    omega
  get_none h := by
    have hpos := hc.length_pos
    rw [hc.get_eq_none_iff hfaithful]
    omega
  linked h a b ha hb :=
    hc.extends_blockAt? ((hc.get_eq_some_iff hfaithful).mp ha)
      ((hc.get_eq_some_iff hfaithful).mp hb)

/-- There is a block at every height between the bounds. -/
theorem exists_get_of_bounds {c : Cache} {first last h : Nat}
    (hc : Sound CompactBlock.Storable c) (hcodec : c.codec = .standard)
    (hbounds : c.bounds = some (first, last)) (hlow : first ≤ h) (hhigh : h ≤ last) :
    ∃ b, c.get h = .ok (some b) := by
  cases hc with
  | fresh hwindow hentries =>
      rw [bounds, hwindow] at hbounds
      cases hbounds
  | filled hc hP =>
      have hfilled := hc.filled fun b hb => by
        rw [hcodec]
        exact EntryCodec.faithful_standard (hP b hb)
      rw [hfilled.bounds] at hbounds
      cases hbounds
      exact (hfilled.get_some h).mpr ⟨hlow, hhigh⟩

/-- Once a block was stored, there is a last height. -/
theorem not_stores_of_latestHeight_eq_none {maxEntries : Nat} {offers : List (Nat × CompactBlock)}
    (hnone : ((empty .standard maxEntries).addAll offers).latestHeight = none) :
    ¬ (empty .standard maxEntries).Stores offers := by
  cases offers with
  | nil =>
      rintro ⟨evicted, hmem⟩
      cases hmem
  | cons q offers =>
      obtain ⟨c₁, hadd, hc₁⟩ := add_of_fresh (c := empty .standard maxEntries) (h := q.1)
        (b := q.2) rfl rfl rfl
      have hanything : ∀ q ∈ offers, (fun _ : CompactBlock => True) q.2 := fun _ _ => trivial
      obtain ⟨first, bs, hc, -⟩ := hc₁.addAll_filled (fun _ _ => trivial) hanything
      rw [addAll_cons, hadd, hc.latestHeight_eq] at hnone
      cases hnone

/-- Whatever blocks a cache is offered at whatever heights, its readers find nothing as long
as nothing was stored, and a bounded run of linked blocks ever after. -/
theorem unfilled_or_filled_of_offers (maxEntries : Nat) (offers : List (Nat × CompactBlock))
    (hoffers : ∀ p ∈ offers, p.2.Storable) :
    (¬ (empty .standard maxEntries).Stores offers ∧
        ((empty .standard maxEntries).addAll offers).Unfilled) ∨
      ((empty .standard maxEntries).Stores offers ∧
        ∃ first last, ((empty .standard maxEntries).addAll offers).Filled (max 1 maxEntries)
          first last) := by
  cases offers with
  | nil =>
      refine Or.inl ⟨?_, unfilled_empty .standard maxEntries⟩
      rintro ⟨evicted, hmem⟩
      cases hmem
  | cons p offers =>
      have hstorable : p.2.Storable := hoffers p List.mem_cons_self
      obtain ⟨c₁, hadd, hc₁⟩ := add_of_fresh (c := empty .standard maxEntries) (h := p.1)
        (b := p.2) rfl rfl rfl
      have hrun : (empty .standard maxEntries).addAll (p :: offers) = c₁.addAll offers := by
        rw [addAll_cons, hadd]
      obtain ⟨first, bs, hc, hP⟩ := hc₁.addAll_filled (P := CompactBlock.Storable)
        (by simpa using hstorable) fun q hq => hoffers q (List.mem_cons_of_mem p hq)
      rw [← hrun] at hc
      have hcodec := codec_addAll (p :: offers) (empty .standard maxEntries)
      have hcapacity := capacity_addAll (p :: offers) (empty .standard maxEntries)
      have hfilled := hc.filled fun b hb => by
        rw [hcodec]
        exact EntryCodec.faithful_standard (hP b hb)
      rw [hcapacity, capacity_empty, Nat.max_comm] at hfilled
      refine Or.inr ⟨⟨none, ?_⟩, first, _, hfilled⟩
      change _ ∈ ((empty .standard maxEntries).add p.1 p.2).1 :: _
      rw [hadd]
      exact List.mem_cons_self

def strayOffers : List (Nat × CompactBlock) :=
  let a := Sample.block 0 7 (Octets.zero 32)
  [(7, a), (8, Sample.block 0 8 a.hash), (8, Sample.block 1 8 (Octets.fill 32 1)),
    (3, Sample.block 2 3 (Octets.zero 32))]

theorem unfilled_or_filled_of_strayOffers :
    (∀ p ∈ strayOffers, p.2.Storable) ∧
      ((¬ (empty .standard 0).Stores strayOffers ∧
          ((empty .standard 0).addAll strayOffers).Unfilled) ∨
        ((empty .standard 0).Stores strayOffers ∧
          ∃ first last, ((empty .standard 0).addAll strayOffers).Filled 1 first last)) := by
  have hstorable : ∀ p ∈ strayOffers, p.2.Storable := by
    simp [strayOffers, Sample.storable_block]
  exact ⟨hstorable, unfilled_or_filled_of_offers 0 strayOffers hstorable⟩

end Cache

end LightServer
