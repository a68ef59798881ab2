import LightServer.Backend.Retrieval
import LightServer.Proofs.Ingest.Intake

/-!
# Following a reorg

The node has a chain of linked blocks, and the cache may hold blocks of another
branch. A block of the node fits on a cached one only if that one is the node's
as well, and then so is everything cached below it. So the first block that is
stored settles the branch: from there on the round climbs to the end of the
chain without meeting another reorg. Until then each reorg takes the round down
by one step, and it gives up exactly when even the block below the height of
the last permitted rewind is one of the other branch.
-/

namespace LightServer.Ingest

open Cache

/-- Up to the height `t`, each of the blocks extends the one below it. -/
structure NodeChain (N : Nat → CompactBlock) (t : Nat) : Prop where
  linked : ∀ h, h < t → (N (h + 1)).Extends (N h).hash
  storable : ∀ h, h ≤ t → (N h).Storable

def chainReply (N : Nat → CompactBlock) (t height : Nat) : FetchReply :=
  if height ≤ t then .ok (some (N height)) else .ok none

theorem chainReply_of_le {N : Nat → CompactBlock} {t h : Nat} (hh : h ≤ t) :
    chainReply N t h = .ok (some (N h)) := if_pos hh

theorem chainReply_of_lt {N : Nat → CompactBlock} {t h : Nat} (hh : t < h) :
    chainReply N t h = .ok none := if_neg (Nat.not_le.mpr hh)

theorem chainReply_eq_some_iff {N : Nat → CompactBlock} {t h : Nat} {b : CompactBlock} :
    chainReply N t h = .ok (some b) ↔ h ≤ t ∧ b = N h := by
  by_cases hh : h ≤ t
  · rw [chainReply_of_le hh]
    simp [hh, eq_comm]
  · rw [chainReply_of_lt (Nat.not_le.mp hh)]
    simp [hh]

/-- Of the blocks `bs` from `first` on, none but the node's has the hash of the node's block at
its height. -/
def Apart (N : Nat → CompactBlock) (t first : Nat) (bs : List CompactBlock) : Prop :=
  ∀ h x, h ≤ t → blockAt? first bs h = some x → x.hash = (N h).hash → x = N h

/-- The block just below the height `x`, if there is one, is the node's. -/
def FitsAt (N : Nat → CompactBlock) (first : Nat) (bs : List CompactBlock) (x : Nat) : Prop :=
  ∀ g y, x = g + 1 → blockAt? first bs g = some y → y = N g

/-- The rewinds that are left lead from the height `x` to one above a block of another branch. -/
def OutOfReach (c : Config) (N : Nat → CompactBlock) (first : Nat) (bs : List CompactBlock)
    (x k : Nat) : Prop :=
  ∃ g y, x = (c.maxReorgRounds - k) * c.rewindStep + g + 1 ∧ blockAt? first bs g = some y ∧
    y ≠ N g

/-- The round ends at the end of the chain, with only blocks of the chain in the cache. -/
def CatchesUp (c : Config) (N : Nat → CompactBlock) (t : Nat) (s : State) (w : Cache) : Prop :=
  ∃ f w', Ends c (fixedSource (chainReply N t)) s w (.ok .caughtUp, ⟨t + 1, 0, f, false⟩, w') ∧
    HoldsFrom (chainReply N t) (t + 1) w'

def GivesUp (c : Config) (N : Nat → CompactBlock) (t : Nat) (s : State) (w : Cache) : Prop :=
  ∃ rounds height s' w', Ends c (fixedSource (chainReply N t)) s w
    (.error (.reorgTooDeep rounds height), s', w')

section Climb

variable {c : Config} {N : Nat → CompactBlock} {t first x k f : Nat} {bs : List CompactBlock}
  {s : State} {w : Cache}

theorem exists_of_not_fitsAt (hmisfit : ¬ FitsAt N first bs x) :
    ∃ g y, x = g + 1 ∧ blockAt? first bs g = some y ∧ y ≠ N g := by
  simpa [FitsAt] using hmisfit

theorem Leads.catchesUp {n : Nat} {s' : State} {w' : Cache}
    (h : Leads c (fixedSource (chainReply N t)) n s w s' w') (hup : CatchesUp c N t s' w') :
    CatchesUp c N t s w := by
  obtain ⟨f, w'', hends, hfrom⟩ := hup
  exact ⟨f, w'', h.ends hends, hfrom⟩

theorem Leads.givesUp {n : Nat} {s' : State} {w' : Cache}
    (h : Leads c (fixedSource (chainReply N t)) n s w s' w') (hup : GivesUp c N t s' w') :
    GivesUp c N t s w := by
  obtain ⟨rounds, height, s'', w'', hends⟩ := hup
  exact ⟨rounds, height, s'', w'', h.ends hends⟩

/-- Below a block of the node there are only blocks of the node. -/
theorem NodeChain.eq_below (hN : NodeChain N t) (hc : w.Holds first bs)
    (hapart : Apart N t first bs) {h : Nat} (hh : h ≤ t)
    (htop : blockAt? first bs h = some (N h)) :
    ∀ g y, g ≤ h → blockAt? first bs g = some y → y = N g := by
  induction h with
  | zero =>
      intro g y hg hy
      rw [Nat.le_zero.mp hg, htop] at hy
      rw [Nat.le_zero.mp hg]
      exact (Option.some.inj hy).symm
  | succ h ih =>
      intro g y hg hy
      rcases Nat.eq_or_lt_of_le hg with rfl | hlt
      · rw [htop] at hy
        exact (Option.some.inj hy).symm
      · have hbelow := exists_blockAt?_iff.mp ⟨_, hy⟩
        have habove := exists_blockAt?_iff.mp ⟨_, htop⟩
        obtain ⟨p, hp⟩ : ∃ p, blockAt? first bs h = some p :=
          exists_blockAt?_iff.mpr (by omega)
        -- the node's block names both the cached block and the node's as its parent
        have hhash : p.hash = (N h).hash :=
          (hc.extends_blockAt? hp htop).symm.trans (hN.linked h hh)
        have hpN : p = N h := hapart h p (by omega) hp hhash
        exact ih (by omega) (by rw [hp, hpN]) g y (by omega) hy

theorem NodeChain.eq_below_of_fitsAt (hN : NodeChain N t) (hc : w.Holds first bs)
    (hapart : Apart N t first bs) (hx : x ≤ t) (hend : x ≤ first + bs.length)
    (hfits : FitsAt N first bs x) :
    ∀ g y, g < x → blockAt? first bs g = some y → y = N g := by
  intro g y hg hy
  have hbelow := exists_blockAt?_iff.mp ⟨_, hy⟩
  obtain ⟨h, rfl⟩ : ∃ h, x = h + 1 := ⟨x - 1, by omega⟩
  obtain ⟨p, hp⟩ : ∃ p, blockAt? first bs h = some p :=
    exists_blockAt?_iff.mpr (by omega)
  have htop : blockAt? first bs h = some (N h) := by rw [hp, hfits h p rfl hp]
  exact hN.eq_below hc hapart (by omega) htop g y (by omega) hy

/-- The chain of the node is followed to its end on top of its own blocks. -/
theorem NodeChain.catchesUp_of_holdsFrom (hN : NodeChain N t)
    (hfrom : HoldsFrom (chainReply N t) x w) (hs : s.Asks c.rewindStep x 0 f) (hx : x ≤ t + 1) :
    CatchesUp c N t s w := by
  induction hleft : t + 1 - x generalizing s w x f with
  | zero =>
      obtain rfl : x = t + 1 := by omega
      have hnone := chainReply_of_lt (N := N) (Nat.lt_succ_self t)
      exact ⟨f, w, ends_of_none hs (Nat.zero_le _) hnone, hfrom⟩
  | succ n ih =>
      have hxt : x ≤ t := by omega
      obtain ⟨w₁, hleads, hfrom₁⟩ := hfrom.leads_of_extends hs (Nat.zero_le _)
        (chainReply_of_le hxt) fun g y hg hy => by
          obtain ⟨-, rfl⟩ := chainReply_eq_some_iff.mp hy
          rw [hg]
          exact hN.linked g (by omega)
      exact hleads.catchesUp (ih hfrom₁ (State.asks_stored _ x 0 f) (by omega) (by omega))

/-- On top of a block of another branch the node's next block is a reorg, which leaves what is
cached below its height. -/
theorem NodeChain.leads_of_not_fitsAt (hN : NodeChain N t) (hc : w.Holds first bs)
    (hcodec : w.codec = .standard) (hapart : Apart N t first bs)
    (hs : s.Asks c.rewindStep x k f) (hk : k ≤ c.maxReorgRounds) (hx : x ≤ t)
    (hmisfit : ¬ FitsAt N first bs x) :
    ∃ w' bs', Leads c (fixedSource (chainReply N t)) 1 s w (State.reorg ⟨x, k, f, false⟩) w' ∧
      w'.codec = .standard ∧ w'.Holds first bs' ∧ first + bs'.length = x ∧
      ∀ g y, blockAt? first bs' g = some y ↔ g < x ∧ blockAt? first bs g = some y := by
  obtain ⟨h, p, rfl, hp, hpN⟩ := exists_of_not_fitsAt hmisfit
  have hparent : ¬ (N (h + 1)).Extends p.hash := by
    intro hext
    exact hpN (hapart h p (by omega) hp (hext.symm.trans (hN.linked h hx)))
  exact leads_of_misfit hc hcodec hs hk (chainReply_of_le hx) hp hparent

end Climb

section Descent

variable {c : Config} {N : Nat → CompactBlock} {t first x k f : Nat} {bs bs' : List CompactBlock}
  {s : State} {w : Cache}

theorem Apart.of_contents (hapart : Apart N t first bs)
    (hcontents : ∀ g y, blockAt? first bs' g = some y ↔ g < x ∧ blockAt? first bs g = some y) :
    Apart N t first bs' := by
  intro h y hh hy
  exact hapart h y hh ((hcontents h y).mp hy).2

theorem not_outOfReach_of_below
    (hbelow : ∀ g y, g < x → blockAt? first bs g = some y → y = N g) :
    ¬ OutOfReach c N first bs x k := by
  rintro ⟨g, y, hg, hy, hne⟩
  exact hne (hbelow g y (by omega) hy)

theorem outOfReach_of_last (hlast : c.maxReorgRounds = k) (hmisfit : ¬ FitsAt N first bs x) :
    OutOfReach c N first bs x k := by
  obtain ⟨g, y, rfl, hy, hne⟩ := exists_of_not_fitsAt hmisfit
  refine ⟨g, y, ?_, hy, hne⟩
  rw [hlast, Nat.sub_self, Nat.zero_mul, Nat.zero_add]

/-- A rewind does not change what is out of reach, since it is below the next height anyway. -/
theorem outOfReach_rewind_iff (hk : k < c.maxReorgRounds)
    (hcontents : ∀ g y, blockAt? first bs' g = some y ↔ g < x ∧ blockAt? first bs g = some y) :
    OutOfReach c N first bs' (x - c.rewindStep) (k + 1) ↔ OutOfReach c N first bs x k := by
  have hrounds : (c.maxReorgRounds - k) * c.rewindStep =
      (c.maxReorgRounds - (k + 1)) * c.rewindStep + c.rewindStep := by
    rw [← Nat.succ_mul]
    congr 1
    omega
  unfold OutOfReach
  rw [hrounds]
  constructor
  · rintro ⟨g, y, hg, hy, hne⟩
    exact ⟨g, y, by omega, ((hcontents g y).mp hy).2, hne⟩
  · rintro ⟨g, y, hg, hy, hne⟩
    exact ⟨g, y, by omega, (hcontents g y).mpr ⟨by omega, hy⟩, hne⟩

/-- Once a block of the node fits, its chain is followed to the end, and no rewind was missing. -/
theorem NodeChain.catchesUp_of_fitsAt (hN : NodeChain N t) (hc : w.Holds first bs)
    (hcodec : w.codec = .standard) (hapart : Apart N t first bs)
    (hs : s.Asks c.rewindStep x k f) (hk : k ≤ c.maxReorgRounds) (hx : x ≤ t)
    (hend : x ≤ first + bs.length) (hfits : FitsAt N first bs x) :
    ¬ OutOfReach c N first bs x k ∧ CatchesUp c N t s w := by
  have hbelow := hN.eq_below_of_fitsAt hc hapart hx hend hfits
  obtain ⟨w₁, hleads, hfrom⟩ := leads_of_fits hc hcodec hs hk (chainReply_of_le hx) hend
    (fun g y hg hy => chainReply_eq_some_iff.mpr ⟨by omega, hbelow g y hg hy⟩)
    fun g y hg hy => by
      rw [hfits g y hg hy, hg]
      exact hN.linked g (by omega)
  have hup : CatchesUp c N t (State.stored ⟨x, k, f, false⟩) w₁ :=
    hN.catchesUp_of_holdsFrom hfrom (State.asks_stored _ x k f) (by omega)
  exact ⟨not_outOfReach_of_below hbelow, hleads.catchesUp hup⟩

/-- Reorg by reorg the round goes down until a block of the node fits, unless the rewinds are
used up before that. -/
theorem NodeChain.givesUp_or_catchesUp (hN : NodeChain N t) (hc : w.Holds first bs)
    (hcodec : w.codec = .standard) (hapart : Apart N t first bs)
    (hs : s.Asks c.rewindStep x k f) (hk : k ≤ c.maxReorgRounds) (hx : x ≤ t)
    (hend : x ≤ first + bs.length) :
    (OutOfReach c N first bs x k → GivesUp c N t s w) ∧
      (¬ OutOfReach c N first bs x k → CatchesUp c N t s w) := by
  induction hleft : c.maxReorgRounds - k generalizing s w bs x k with
  | zero =>
      by_cases hfits : FitsAt N first bs x
      · obtain ⟨hin, hup⟩ := hN.catchesUp_of_fitsAt hc hcodec hapart hs hk hx hend hfits
        exact ⟨fun hout => absurd hout hin, fun _ => hup⟩
      · have hout := outOfReach_of_last (show c.maxReorgRounds = k by omega) hfits
        obtain ⟨w₁, bs₁, hleads, -⟩ :=
          hN.leads_of_not_fitsAt hc hcodec hapart hs hk hx hfits
        have hdeep : GivesUp c N t (State.reorg ⟨x, k, f, false⟩) w₁ :=
          ⟨_, _, _, _, ends_of_tooDeep (State.asks_reorg c.rewindStep x k f) (by omega)⟩
        exact ⟨fun _ => hleads.givesUp hdeep, fun hin => absurd hout hin⟩
  | succ n ih =>
      by_cases hfits : FitsAt N first bs x
      · obtain ⟨hin, hup⟩ := hN.catchesUp_of_fitsAt hc hcodec hapart hs hk hx hend hfits
        exact ⟨fun hout => absurd hout hin, fun _ => hup⟩
      · obtain ⟨w₁, bs₁, hleads, hcodec₁, hc₁, hend₁, hcontents⟩ :=
          hN.leads_of_not_fitsAt hc hcodec hapart hs hk hx hfits
        obtain ⟨hdeep, hreach⟩ := ih hc₁ hcodec₁ (hapart.of_contents hcontents)
          (State.asks_reorg c.rewindStep x k f) (by omega) (by omega) (by omega) (by omega)
        rw [outOfReach_rewind_iff (by omega) hcontents] at hdeep hreach
        exact ⟨fun hout => hleads.givesUp (hdeep hout), fun hin => hleads.catchesUp (hreach hin)⟩

end Descent

/-- Even the block below the height of the last permitted rewind is cached and is not the
node's. -/
def BeyondRepair (c : Config) (N : Nat → CompactBlock) (height : Nat) (w : Cache) : Prop :=
  ∃ g b, height = c.maxReorgRounds * c.rewindStep + g + 1 ∧ w.get g = .ok (some b) ∧ b ≠ N g

section Round

variable {c : Config} {N : Nat → CompactBlock} {t next : Nat} {s : State} {w : Cache}

theorem outOfReach_iff_beyondRepair {first x : Nat} {bs : List CompactBlock}
    (hc : w.Holds first bs) (hfaithful : ∀ b ∈ bs, w.codec.Faithful b) :
    OutOfReach c N first bs x 0 ↔ BeyondRepair c N x w := by
  simp only [OutOfReach, BeyondRepair, Nat.sub_zero, hc.get_eq_some_iff hfaithful]

/-- On a reachable cache the round gives up on what is beyond repair, and on nothing else. -/
theorem NodeChain.ends_of_reachable (hN : NodeChain N t) (hcache : w.Reachable)
    (hcount : s.reorgCount = 0) (hpending : s.rewindPending = false) (hheight : s.height ≤ t)
    (hnext : ∀ last, w.latestHeight = some last → s.height = last + 1)
    (hhash : ∀ h b, h ≤ t → w.get h = .ok (some b) → b.hash = (N h).hash → b = N h) :
    (BeyondRepair c N s.height w → GivesUp c N t s w) ∧
      (¬ BeyondRepair c N s.height w → CatchesUp c N t s w) := by
  have hs := State.asks_of_not_pending c.rewindStep hpending
  rw [hcount] at hs
  cases hcache.sound with
  | fresh hwindow hentries =>
      refine ⟨?_, fun _ => ?_⟩
      · rintro ⟨g, b, -, hb, -⟩
        rw [get_of_entries hentries] at hb
        cases hb
      · obtain ⟨w₁, hleads, hfrom⟩ := leads_of_fresh hwindow hentries hcache.codec_eq hs
          (Nat.zero_le _) (chainReply_of_le hheight)
        exact hleads.catchesUp
          (hN.catchesUp_of_holdsFrom hfrom (State.asks_stored _ _ _ _) (by omega))
  | @filled first bs hc hstorable =>
      have hfaithful : ∀ b ∈ bs, w.codec.Faithful b := by
        intro b hb
        rw [hcache.codec_eq]
        exact EntryCodec.faithful_standard (hstorable b hb)
      have hlast := hnext _ hc.latestHeight_eq
      have hpos := hc.length_pos
      have hapart : Apart N t first bs := fun h b hh hb =>
        hhash h b hh ((hc.get_eq_some_iff hfaithful).mpr hb)
      have hround := hN.givesUp_or_catchesUp hc hcache.codec_eq hapart hs (Nat.zero_le _) hheight
        (by omega)
      rwa [outOfReach_iff_beyondRepair hc hfaithful] at hround

theorem NodeChain.storable_chainReply (hN : NodeChain N t) :
    ∀ g y, chainReply N t g = .ok (some y) → y.Storable := by
  intro g y hy
  obtain ⟨hg, rfl⟩ := chainReply_eq_some_iff.mp hy
  exact hN.storable g hg

end Round

end LightServer.Ingest

namespace LightServer.Server.Assembly

open Ingest

/-- The server has caught up with the chain `N` to the height `t`: it has the blocks of the
chain and no others, and it gives out each of them. -/
structure Follows {ν : Type} (p : NodeAccess ν) (N : Nat → CompactBlock) (t : Nat) (s : State)
    (w : CatchUp ν) : Prop where
  height : s.height = t + 1
  reorgCount : s.reorgCount = 0
  latest : w.backend.cache.latestHeight = some t
  resident : ∀ h b, w.backend.cache.get h = .ok (some b) → h ≤ t ∧ b = N h
  read : ∀ h, h ≤ t → (w.backend.readBlock p h).1 = .ok (N h)

variable {ν : Type} {p : NodeAccess ν} {N : Nat → CompactBlock} {t : Nat}
  {c : Ingest.Config} {s : State} {w : CatchUp ν}

theorem readBlock_of_holdsFrom (hp : p.Answers (chainReply N t)) (hN : NodeChain N t)
    {b : Backend ν} (hfrom : HoldsFrom (chainReply N t) (t + 1) b.cache) {h : Nat} (hh : h ≤ t) :
    (b.readBlock p h).1 = .ok (N h) := by
  rcases hfrom.get_eq hN.storable_chainReply h with hget | ⟨x, hx, hget⟩
  · have hreply : (b.fetch p h).1 = .ok (some (N h)) := by rw [hp, chainReply_of_le hh]
    simp [Backend.readBlock, Retrieval.ReadPhase.lookTwice, Retrieval.ReadPhase.look,
      Retrieval.firstLook, Retrieval.secondLook, hget, hfrom.latestHeight_eq, hh, hreply,
      Retrieval.settle]
  · obtain ⟨-, rfl⟩ := chainReply_eq_some_iff.mp hx
    simp [Backend.readBlock, Retrieval.ReadPhase.lookTwice, Retrieval.ReadPhase.look,
      Retrieval.firstLook, hget]

theorem follows_of_holdsFrom (hp : p.Answers (chainReply N t)) (hN : NodeChain N t)
    (hfrom : HoldsFrom (chainReply N t) (t + 1) w.backend.cache) (f : Nat) :
    Follows p N t ⟨t + 1, 0, f, false⟩ w where
  height := rfl
  reorgCount := rfl
  latest := hfrom.latestHeight_eq
  resident h b hb := by
    rcases hfrom.get_eq hN.storable_chainReply h with hget | ⟨x, hx, hget⟩
    · rw [hb] at hget
      cases hget
    · rw [hb] at hget
      cases hget
      exact chainReply_eq_some_iff.mp hx
  read h hh := readBlock_of_holdsFrom hp hN hfrom hh

/-- With a node whose chain does not change, a round gives up because of too many reorgs
exactly when what is cached is beyond repair, and otherwise it ends with the chain of the node
followed. -/
theorem tooDeep_iff_and_follows (hp : p.Answers (chainReply N t)) (hN : NodeChain N t)
    (hcache : w.backend.cache.Reachable) (hcount : s.reorgCount = 0)
    (hpending : s.rewindPending = false) (hheight : s.height ≤ t)
    (hnext : ∀ last, w.backend.cache.latestHeight = some last → s.height = last + 1)
    (hhash : ∀ h b, h ≤ t → w.backend.cache.get h = .ok (some b) → b.hash = (N h).hash →
      b = N h) :
    ((∃ rounds height s' w', Ends c (catchUpEnvironment p) s w
        (.error (.reorgTooDeep rounds height), s', w')) ↔
      BeyondRepair c N s.height w.backend.cache) ∧
    (¬ BeyondRepair c N s.height w.backend.cache →
      ∃ s' w', Ends c (catchUpEnvironment p) s w (.ok .caughtUp, s', w') ∧
        Follows p N t s' w') := by
  have hfeeds := feeds_catchUpEnvironment p
  have hserves := serves_catchUpEnvironment hp
  obtain ⟨hdeep, hreach⟩ :=
    hN.ends_of_reachable (c := c) hcache hcount hpending hheight hnext hhash
  have hfollows : ¬ BeyondRepair c N s.height w.backend.cache →
      ∃ s' w', Ends c (catchUpEnvironment p) s w (.ok .caughtUp, s', w') ∧
        Follows p N t s' w' := by
    intro hin
    obtain ⟨f', k, hends, hfrom⟩ := hreach hin
    obtain ⟨w', rfl, hends'⟩ := (ends_iff_fixedSource hfeeds hserves).mp hends
    exact ⟨_, w', hends', follows_of_holdsFrom hp hN hfrom f'⟩
  refine ⟨⟨?_, fun hout => ?_⟩, hfollows⟩
  · rintro ⟨rounds, height, s₁, w₁, htooDeep⟩
    refine Classical.byContradiction fun hin => ?_
    obtain ⟨s', w', hends, -⟩ := hfollows hin
    cases hends.unique htooDeep
  · obtain ⟨rounds, height, s', k, hends⟩ := hdeep hout
    obtain ⟨w', -, hends'⟩ := (ends_iff_fixedSource hfeeds hserves).mp hends
    exact ⟨rounds, height, s', w', hends'⟩

def numberedChain (height : Nat) : CompactBlock :=
  Sample.marked height (UInt8.ofNat height) (UInt8.ofNat (height - 1))

def strandedServer : CatchUp Unit where
  backend := {
    world := ()
    cache := (Cache.empty .standard 4).addAll [(0, Sample.marked 0 9 0)]
    metrics := {}
    now := 0 }
  caughtUp := false

theorem nodeChain_numberedChain (t : Nat) : NodeChain numberedChain t where
  linked _ _ := rfl
  storable h _ := Sample.storable_marked h _ _

theorem tooDeep_iff_and_follows_of_stranded :
    ((∃ rounds height s' w', Ends .default
        (catchUpEnvironment (.ofSource (chainReply numberedChain 1))) (.start 1) strandedServer
        (.error (.reorgTooDeep rounds height), s', w')) ↔
      BeyondRepair .default numberedChain 1 strandedServer.backend.cache) ∧
    (¬ BeyondRepair .default numberedChain 1 strandedServer.backend.cache →
      ∃ s' w', Ends .default
        (catchUpEnvironment (.ofSource (chainReply numberedChain 1))) (.start 1) strandedServer
        (.ok .caughtUp, s', w') ∧
        Follows (.ofSource (chainReply numberedChain 1)) numberedChain 1 s' w') := by
  have hstale := Sample.storable_marked 0 9 0
  obtain ⟨k, hadd, hk⟩ := Cache.add_of_fresh (c := Cache.empty .standard 4) (h := 0)
    (b := Sample.marked 0 9 0) rfl rfl rfl
  have hcache : strandedServer.backend.cache = k := congrArg Prod.snd hadd
  have hfaithful : ∀ b ∈ [Sample.marked 0 9 0], k.codec.Faithful b := by
    have hcodec : strandedServer.backend.cache.codec = .standard := Cache.codec_addAll _ _
    rw [← hcache, hcodec]
    simpa using EntryCodec.faithful_standard hstale
  refine tooDeep_iff_and_follows (NodeAccess.answers_ofSource _) (nodeChain_numberedChain 1)
    ⟨4, _, ?_, rfl⟩ rfl rfl (Nat.le_refl 1) ?_ ?_
  · simpa using hstale
  · rw [hcache, hk.latestHeight_eq]
    rintro last ⟨⟩
    rfl
  · intro h b _ hb hhash
    rw [hcache, hk.get_eq_some_iff hfaithful, Cache.blockAt?_singleton_eq_some_iff] at hb
    obtain ⟨rfl, rfl⟩ := hb
    exact absurd hhash (by decide)

end LightServer.Server.Assembly
