import LightServer.Proofs.Cache.Run
import LightServer.Proofs.Ingest.Source

/-!
# What a round takes in

A turn that stores a block or meets a reorg is described by what the cache
holds at the heights below. `HoldsFrom source next w` says that everything in
the cache is what the source has at that height, up to the height `next`. Once
this holds the source is only compared with itself: offering a block of it
again is never a reorg, and offering the next one is a reorg exactly when the
source contradicts itself there.
-/

namespace LightServer.Ingest

open Cache

/-- The cache holds blocks that the source has at their heights and nothing else, and the height
`next` is the one that it takes next. -/
def HoldsFrom (source : Nat → FetchReply) (next : Nat) (w : Cache) : Prop :=
  w.codec = .standard ∧ ∃ first bs, w.Holds first bs ∧ first + bs.length = next ∧
    ∀ g y, blockAt? first bs g = some y → source g = .ok (some y)

variable {c : Config} {source : Nat → FetchReply} {s : State} {w : Cache}
  {x k f first next : Nat} {bs : List CompactBlock} {b : CompactBlock}

theorem encode_of_standard (hcodec : w.codec = .standard) (b : CompactBlock) :
    w.codec.encode b = .ok (Encoding.encode b) := by
  rw [hcodec]
  rfl

/-- The first block that the source has for an untouched cache is stored. -/
theorem leads_of_fresh (hwindow : w.window = none) (hentries : w.entries = ∅)
    (hcodec : w.codec = .standard) (hs : s.Asks c.rewindStep x k f) (hk : k ≤ c.maxReorgRounds)
    (hx : source x = .ok (some b)) :
    ∃ w', Leads c (fixedSource source) 1 s w (State.stored ⟨x, k, f, false⟩) w' ∧
      HoldsFrom source (x + 1) w' := by
  obtain ⟨w', hadd, hc'⟩ := add_of_fresh (h := x) hwindow hentries (encode_of_standard hcodec b)
  refine ⟨w', leads_of_stored hs hk hx hadd,
    (codec_eq_of_add hadd).trans hcodec, x, [b], hc', rfl, fun g y hy => ?_⟩
  obtain ⟨rfl, rfl⟩ := blockAt?_singleton_eq_some_iff.mp hy
  exact hx

/-- A block that fits on what is cached below its height is stored. If all of that is from the
source, then so is everything that is left. -/
theorem leads_of_fits (hc : w.Holds first bs) (hcodec : w.codec = .standard)
    (hs : s.Asks c.rewindStep x k f) (hk : k ≤ c.maxReorgRounds)
    (hx : source x = .ok (some b)) (hend : x ≤ first + bs.length)
    (hbelow : ∀ g y, g < x → blockAt? first bs g = some y → source g = .ok (some y))
    (hfits : ∀ g y, x = g + 1 → blockAt? first bs g = some y → b.Extends y.hash) :
    ∃ w', Leads c (fixedSource source) 1 s w (State.stored ⟨x, k, f, false⟩) w' ∧
      HoldsFrom source (x + 1) w' := by
  obtain ⟨evicted, w', first', bs', hadd, hc', hend', hcontents⟩ :=
    hc.add_of_fits (encode_of_standard hcodec b) hend hfits
  refine ⟨w', leads_of_stored hs hk hx hadd,
    (codec_eq_of_add hadd).trans hcodec, first', bs', hc', hend', fun g y hy => ?_⟩
  rcases hcontents g y hy with ⟨rfl, rfl⟩ | ⟨hg, hold⟩
  · exact hx
  · exact hbelow g y hg hold

/-- A block that does not fit on the one cached below its height is a reorg, which leaves what is
cached below. -/
theorem leads_of_misfit {p : CompactBlock} (hc : w.Holds first bs) (hcodec : w.codec = .standard)
    (hs : s.Asks c.rewindStep (x + 1) k f) (hk : k ≤ c.maxReorgRounds)
    (hx : source (x + 1) = .ok (some b)) (hp : blockAt? first bs x = some p)
    (hmisfit : ¬ b.Extends p.hash) :
    ∃ w' bs', Leads c (fixedSource source) 1 s w (State.reorg ⟨x + 1, k, f, false⟩) w' ∧
      w'.codec = .standard ∧ w'.Holds first bs' ∧ first + bs'.length = x + 1 ∧
      ∀ g y, blockAt? first bs' g = some y ↔ g < x + 1 ∧ blockAt? first bs g = some y := by
  obtain ⟨w', bs', hadd, hc', hend', hcontents⟩ :=
    hc.add_of_misfit (encode_of_standard hcodec b) hp hmisfit
  exact ⟨w', bs', leads_of_reorg hs hk hx hadd, (codec_eq_of_add hadd).trans hcodec, hc', hend',
    hcontents⟩

/-- On top of blocks of the source the next block is stored if it extends the one below it in the
source. -/
theorem HoldsFrom.leads_of_extends (hfrom : HoldsFrom source x w)
    (hs : s.Asks c.rewindStep x k f) (hk : k ≤ c.maxReorgRounds)
    (hx : source x = .ok (some b))
    (hextends : ∀ g y, x = g + 1 → source g = .ok (some y) → b.Extends y.hash) :
    ∃ w', Leads c (fixedSource source) 1 s w (State.stored ⟨x, k, f, false⟩) w' ∧
      HoldsFrom source (x + 1) w' := by
  obtain ⟨hcodec, first, bs, hc, hend, hblocks⟩ := hfrom
  exact leads_of_fits hc hcodec hs hk hx (by omega) (fun g y _ hy => hblocks g y hy)
    fun g y hg hy => hextends g y hg (hblocks g y hy)

theorem HoldsFrom.latestHeight_eq (hfrom : HoldsFrom source (x + 1) w) :
    w.latestHeight = some x := by
  obtain ⟨-, first, bs, hc, hend, -⟩ := hfrom
  rw [hc.latestHeight_eq, hend, Nat.add_sub_cancel]

/-- The last cached height is one of the source. -/
theorem HoldsFrom.source_last (hfrom : HoldsFrom source (x + 1) w) :
    ∃ b, source x = .ok (some b) := by
  obtain ⟨-, first, bs, hc, hend, hblocks⟩ := hfrom
  have hpos := hc.length_pos
  obtain ⟨b, hb⟩ : ∃ b, blockAt? first bs x = some b :=
    exists_blockAt?_iff.mpr (by omega)
  exact ⟨b, hblocks x b hb⟩

/-- Readers find the source's block at a height or nothing at all. -/
theorem HoldsFrom.get_eq (hfrom : HoldsFrom source next w)
    (hstorable : ∀ g y, source g = .ok (some y) → y.Storable) (h : Nat) :
    w.get h = .ok none ∨ ∃ b, source h = .ok (some b) ∧ w.get h = .ok (some b) := by
  obtain ⟨hcodec, first, bs, hc, -, hblocks⟩ := hfrom
  have hfaithful : ∀ b ∈ bs, w.codec.Faithful b := by
    intro b hb
    obtain ⟨i, hi⟩ := List.mem_iff_getElem?.mp hb
    have hat : blockAt? first bs (first + i) = some b :=
      blockAt?_eq_some_iff.mpr ⟨Nat.le_add_right _ _, by rwa [Nat.add_sub_cancel_left]⟩
    rw [hcodec]
    exact EntryCodec.faithful_standard (hstorable _ b (hblocks _ b hat))
  cases hb : blockAt? first bs h with
  | none =>
      have hout : ¬ (first ≤ h ∧ h < first + bs.length) := by
        rw [← exists_blockAt?_iff, hb]
        exact nofun
      exact Or.inl ((hc.get_eq_none_iff hfaithful).mpr (by omega))
  | some b => exact Or.inr ⟨b, hblocks h b hb, (hc.get_eq_some_iff hfaithful).mpr hb⟩

end LightServer.Ingest
