import LightServer.Proofs.Ingest.Pace
import LightServer.Proofs.Ingest.Storm

/-!
# When the limit of reorgs can be reached

The ingestor gives up when more reorgs follow each other than it tolerates.
Each of them goes back by a rewind step, and none is met at the first cached
height or below, so this takes a cache with room for more blocks than all those
rewinds go back. With so much room it does happen: a node that lets the cache
grow to that size, and from then on has blocks that fit nowhere, sends the
ingestor down to its start.
-/

namespace LightServer.Ingest

variable {ω : Type} {c : Config} {env : Environment ω} {s s' : State} {v v' : ω}

def ReachesCeiling (c : Config) (env : Environment ω) (wait : ω → Bool × ω) (s : State) (v : ω) :
    Prop :=
  ∃ fuel rounds k height v',
    run c env wait fuel rounds s v = some (.error (.reorgTooDeep k height), v')

/-- The ingestor never ends in this way, wherever it starts and whatever surrounds it, if it is the
only one to write to its cache, which is empty at first. -/
def NeverReachesCeiling (c : Config) (maxEntries : Nat) : Prop :=
  ∀ (ω : Type) (env : Environment ω) (cache : ω → Cache) (wait : ω → Bool × ω) (start : Nat)
    (v : ω), env.Feeds cache → (∀ v, cache (wait v).2 = cache v) →
    cache v = .empty .standard maxEntries → ¬ ReachesCeiling c env wait (.start start) v

theorem neverReachesCeiling_of_le {maxEntries : Nat} (hpos : 1 ≤ maxEntries)
    (hle : maxEntries ≤ c.maxReorgRounds * c.rewindStep) : NeverReachesCeiling c maxEntries := by
  rintro ω env cache wait start v hfeeds hwait hcache ⟨fuel, rounds, k, height, v', hrun⟩
  have hstart : Visits c env (fun v v' => cache v' = cache v) (.start start) v (.start start) v :=
    Visits.start
  obtain ⟨s₁, v₁, s', hvisit, hturn⟩ := hstart.exists_of_run hwait hrun
  have hempty := pace_empty c.rewindStep start maxEntries fun _ _ => True
  rw [← hcache, Nat.max_eq_left hpos] at hempty
  have hpace := hvisit.pace (R := fun _ _ _ => True) hfeeds
    ⟨fun _ _ _ _ _ => trivial, fun _ _ _ _ _ => trivial, fun _ _ _ _ _ _ => trivial,
      fun _ _ _ _ _ => trivial⟩ (fun _ _ h => ⟨h, fun _ _ _ => trivial⟩) hempty
  have hdeep := Nat.mul_le_mul_right c.rewindStep (Nat.succ_le_of_lt (lt_reorgCount_of_turn hturn))
  have hshallow := hpace.shallow
  rw [Nat.succ_mul] at hdeep
  omega

section Climb

open Cache Sample

variable {w : Cache} {x : Nat}

/-- The cache has marked blocks at all heights below `x`. -/
structure Climbed (x : Nat) (w : Cache) : Prop where
  codec : w.codec = .standard
  run : ∃ bs, w.Holds 0 bs ∧ ∀ g, g < x → blockAt? 0 bs g = some (marked g 0 0)

theorem Climbed.mono {x' : Nat} (h : Climbed x w) (hle : x' ≤ x) : Climbed x' w := by
  obtain ⟨hcodec, bs, hc, hblocks⟩ := h
  exact ⟨hcodec, bs, hc, fun g hg => hblocks g (Nat.lt_of_lt_of_le hg hle)⟩

theorem exists_climbed_one (maxEntries : Nat) :
    ∃ w', (Cache.empty .standard maxEntries).add 0 (marked 0 0 0) = (.ok (.stored none), w') ∧
      Climbed 1 w' := by
  obtain ⟨w', hadd, hc⟩ := add_of_fresh (c := Cache.empty .standard maxEntries) (h := 0)
    (b := marked 0 0 0) rfl rfl rfl
  refine ⟨w', hadd, codec_eq_of_add hadd, [marked 0 0 0], hc, fun g hg => ?_⟩
  obtain rfl : g = 0 := Nat.lt_one_iff.mp hg
  rfl

/-- A marked block is stored on top of the others. -/
theorem Climbed.exists_add_marked (h : Climbed x w) (hpos : 0 < x) (hroom : x < w.capacity) :
    ∃ w', w.add x (marked x 0 0) = (.ok (.stored none), w') ∧ Climbed (x + 1) w' := by
  obtain ⟨hcodec, bs, hc, hblocks⟩ := h
  obtain ⟨y, rfl⟩ := Nat.exists_eq_add_one_of_ne_zero (Nat.ne_of_gt hpos)
  have hend := (exists_blockAt?_iff.mp ⟨_, hblocks y (Nat.lt_succ_self y)⟩).2
  have hextends : (marked (y + 1) 0 0).ExtendsLast (bs.take (y + 1 - 0)) := by
    refine (extendsLast_take_iff (Nat.zero_le _) hend).mpr fun g z hg hz => ?_
    rw [hblocks g (by omega)] at hz
    cases hz
    rfl
  obtain ⟨w', hadd, hc'⟩ := hc.add_of_extends (encode_of_standard hcodec _) (Nat.zero_le _) hend
    hroom hextends
  refine ⟨w', hadd, (codec_eq_of_add hadd).trans hcodec, _, hc', fun g hg => ?_⟩
  have hlength : (bs.take (y + 1 - 0)).length = y + 1 := List.length_take_of_le (by omega)
  rw [blockAt?_concat, blockAt?_take, hlength]
  rcases Nat.eq_or_lt_of_le (Nat.le_of_lt_succ hg) with rfl | hlt
  · exact Or.inr ⟨(Nat.zero_add _).symm, rfl⟩
  · exact Or.inl ⟨by omega, hblocks g hlt⟩

/-- A block that is marked otherwise is a reorg. -/
theorem Climbed.exists_add_stray (h : Climbed (x + 1) w) :
    ∃ w', w.add (x + 1) (marked (x + 1) 1 1) = (.ok .reorgDetected, w') ∧
      Climbed (x + 1) w' := by
  obtain ⟨hcodec, bs, hc, hblocks⟩ := h
  -- the mark of the block below is not the one that this block names as its parent
  have hmarks : Octets.fill 32 1 ≠ Octets.fill 32 0 := by decide
  have hmisfit : ¬ (marked (x + 1) 1 1).Extends (marked x 0 0).hash := hmarks
  obtain ⟨w', bs', hadd, hc', -, hcontents⟩ := hc.add_of_misfit (encode_of_standard hcodec _)
    (hblocks x (Nat.lt_succ_self x)) hmisfit
  exact ⟨w', hadd, (codec_eq_of_add hadd).trans hcodec, bs', hc', fun g hg =>
    (hcontents g _).mpr ⟨hg, hblocks g hg⟩⟩

end Climb

end LightServer.Ingest

namespace LightServer.Server.Assembly

open Ingest Sample

/-- A node with linked blocks for the first `n` fetches, and with blocks that fit nowhere from
then on. It counts the fetches. -/
def fickleNode (n : Nat) : NodeAccess Nat where
  call _ _ i := ((0, .error (.transport "no calls")), i)
  fetch height i :=
    ((0, fun i => ((0, .ok (some (if i < n then marked height 0 0 else marked height 1 1))), i + 1)),
      i)

variable {ν : Type} {p : NodeAccess ν} {c : Ingest.Config} {s s' : State} {v : CatchUp ν}
  {x k f n j : Nat} {b : CompactBlock} {outcome : Except CacheError AddOutcome} {w' : Cache}

theorem exists_leads_of_add (hs : s.Asks c.rewindStep x k f) (hk : k ≤ c.maxReorgRounds)
    (hfetch : (v.backend.fetch p x).1 = .ok (some b))
    (hadd : v.backend.cache.add x b = (outcome, w'))
    (hgoes : (afterAdd c ⟨x, k, f, false⟩ outcome).1 = .goOn s') :
    ∃ v', Leads c (catchUpEnvironment p) 1 s v s' v' ∧
      v'.backend.cache = w' ∧ v'.backend.world = (v.backend.fetch p x).2.world := by
  obtain ⟨v', hturn, hcache, hworld⟩ := exists_turn_of_add hs hk hfetch hadd
  rw [hgoes] at hturn
  exact ⟨v', leads_of_turn hturn, hcache, hworld⟩

theorem fetch_fickleNode_of_lt {s : Backend Nat} (h : s.world < n) :
    (s.fetch (fickleNode n) x).1 = .ok (some (marked x 0 0)) := by
  change Except.ok (some (if s.world < n then marked x 0 0 else marked x 1 1)) = _
  rw [if_pos h]

theorem fetch_fickleNode_of_le {s : Backend Nat} (h : n ≤ s.world) :
    (s.fetch (fickleNode n) x).1 = .ok (some (marked x 1 1)) := by
  change Except.ok (some (if s.world < n then marked x 0 0 else marked x 1 1)) = _
  rw [if_neg (Nat.not_lt.mpr h)]

theorem world_fetch_fickleNode (n x : Nat) (s : Backend Nat) :
    (s.fetch (fickleNode n) x).2.world = s.world + 1 := rfl

def emptyServer (maxEntries : Nat) : CatchUp Nat :=
  ⟨⟨0, .empty .standard maxEntries, {}, 0⟩, false⟩

/-- While the node has linked blocks, the cache grows. -/
theorem exists_leads_climb {maxEntries : Nat} (hroom : n ≤ maxEntries) (hj : j < n) :
    ∃ s v, Leads c (catchUpEnvironment (fickleNode n)) (j + 1) (.start 0) (emptyServer maxEntries)
        s v ∧ s.Asks c.rewindStep (j + 1) 0 0 ∧ v.backend.world = j + 1 ∧
      v.backend.cache.capacity = max maxEntries 1 ∧ Climbed (j + 1) v.backend.cache := by
  induction j with
  | zero =>
      obtain ⟨w', hadd, hclimbed⟩ := exists_climbed_one maxEntries
      have hcapacity := Cache.capacity_add 0 (marked 0 0 0) (.empty .standard maxEntries)
      rw [hadd] at hcapacity
      obtain ⟨v', hleads, rfl, hworld⟩ := exists_leads_of_add (p := fickleNode n)
        (v := emptyServer maxEntries) (State.asks_start c.rewindStep 0) (Nat.zero_le _)
        (fetch_fickleNode_of_lt hj) hadd rfl
      exact ⟨_, v', hleads, State.asks_stored _ _ _ _, hworld, hcapacity, hclimbed⟩
  | succ j ih =>
      obtain ⟨s, v, hleads, hs, hworld, hcapacity, hclimbed⟩ := ih (Nat.lt_of_succ_lt hj)
      obtain ⟨w', hadd, hclimbed'⟩ := hclimbed.exists_add_marked (Nat.succ_pos j) (by omega)
      have hcapacity' := Cache.capacity_add (j + 1) (marked (j + 1) 0 0) v.backend.cache
      rw [hadd] at hcapacity'
      obtain ⟨v', hleads', rfl, hworld'⟩ := exists_leads_of_add hs (Nat.zero_le _)
        (fetch_fickleNode_of_lt (hworld ▸ hj)) hadd rfl
      rw [world_fetch_fickleNode, hworld] at hworld'
      exact ⟨_, v', hleads.trans hleads', State.asks_stored _ _ _ _, hworld',
        hcapacity'.trans hcapacity, hclimbed'⟩

/-- When nothing fits any more, each reorg goes back by a step, until there were too many. -/
theorem exists_ends_fall {m : Nat} (hm : k + m = c.maxReorgRounds) (hstep : 0 < c.rewindStep)
    {v : CatchUp Nat} (hs : s.Asks c.rewindStep (m * c.rewindStep + 1) k f)
    (hworld : n ≤ v.backend.world) (hclimbed : Climbed (m * c.rewindStep + 1) v.backend.cache) :
    ∃ k' x' s' v', Ends c (catchUpEnvironment (fickleNode n)) s v
      (.error (.reorgTooDeep k' x'), s', v') := by
  induction m generalizing s v k with
  | zero =>
      -- as many reorgs as are tolerated are behind, so that the next turn gives up
      obtain ⟨w', hadd, -⟩ := hclimbed.exists_add_stray
      obtain ⟨v', hleads, -, -⟩ :=
        exists_leads_of_add hs (by omega) (fetch_fickleNode_of_le hworld) hadd rfl
      have hrun : (catchUpEnvironment (fickleNode n)).stopped v' = false := rfl
      have hdeep := turn_eq_of_asks hrun
        (State.asks_reorg c.rewindStep (0 * c.rewindStep + 1) k f)
      rw [if_neg (by omega)] at hdeep
      exact ⟨_, _, _, _, hleads.ends (ends_of_turn hdeep)⟩
  | succ m ih =>
      obtain ⟨w', hadd, hclimbed'⟩ := hclimbed.exists_add_stray
      obtain ⟨v', hleads, rfl, hworld'⟩ :=
        exists_leads_of_add hs (by omega) (fetch_fickleNode_of_le hworld) hadd rfl
      have hs' := State.asks_reorg c.rewindStep ((m + 1) * c.rewindStep + 1) k f
      have hback : (m + 1) * c.rewindStep + 1 - c.rewindStep = m * c.rewindStep + 1 := by
        rw [Nat.succ_mul]
        omega
      rw [hback] at hs'
      rw [world_fetch_fickleNode] at hworld'
      obtain ⟨k', x', s', v'', hends⟩ := ih (by omega) hs' (by omega)
        (hclimbed'.mono (by rw [Nat.succ_mul]; omega))
      exact ⟨k', x', s', v'', hleads.ends hends⟩

theorem reachesCeiling_fickleNode {maxEntries : Nat} (hstep : 0 < c.rewindStep)
    (hlt : c.maxReorgRounds * c.rewindStep < maxEntries) :
    ReachesCeiling c (catchUpEnvironment (fickleNode (c.maxReorgRounds * c.rewindStep + 1)))
      (catchUpWait c) (.start 0) (emptyServer maxEntries) := by
  obtain ⟨s, v, hleads, hs, hworld, -, hclimbed⟩ :=
    exists_leads_climb (c := c) (Nat.succ_le_of_lt hlt) (Nat.lt_succ_self _)
  obtain ⟨k, x, s', v', hends⟩ := exists_ends_fall (Nat.zero_add _) hstep hs
    (Nat.le_of_eq hworld.symm) hclimbed
  obtain ⟨fuel, hfuel⟩ := hleads.ends hends
  refine ⟨fuel, 1, k, x, v', ?_⟩
  rw [run, hfuel]

/-- An ingestor can come to have too many reorgs in a row exactly if its cache has room for more
blocks than all the rewinds that it tolerates go back. -/
theorem neverReachesCeiling_of_le_and_reaches_of_lt {maxEntries : Nat} (hvalid : c.validate = .ok ())
    (hpos : 1 ≤ maxEntries) :
    (maxEntries ≤ c.maxReorgRounds * c.rewindStep → NeverReachesCeiling c maxEntries) ∧
      (c.maxReorgRounds * c.rewindStep < maxEntries →
        ∃ (p : NodeAccess Nat) (v : CatchUp Nat), v.backend.cache = .empty .standard maxEntries ∧
          ReachesCeiling c (catchUpEnvironment p) (catchUpWait c) (.start 0) v) :=
  ⟨neverReachesCeiling_of_le hpos, fun hlt => ⟨_, emptyServer maxEntries, rfl,
    reachesCeiling_fickleNode (Config.rewindStep_pos hvalid) hlt⟩⟩

/-- With the default settings room for a hundred blocks is just too little, and one more is just
enough. -/
theorem neverReachesCeiling_of_le_and_reaches_of_lt_of_default :
    Ingest.Config.default.validate = .ok () ∧ NeverReachesCeiling .default 100 ∧
      ∃ (p : NodeAccess Nat) (v : CatchUp Nat), v.backend.cache = .empty .standard 101 ∧
        ReachesCeiling .default (catchUpEnvironment p) (catchUpWait .default) (.start 0) v :=
  ⟨rfl, (neverReachesCeiling_of_le_and_reaches_of_lt rfl (by decide)).1 (by decide),
    (neverReachesCeiling_of_le_and_reaches_of_lt rfl (by decide)).2 (by decide)⟩

end LightServer.Server.Assembly
