import LightServer.Proofs.Ingest.Pace
import LightServer.Proofs.Ingest.Storm
import LightServer.Proofs.Node.Answers
import LightServer.Proofs.Node.Recording
import LightServer.Proofs.Outcome
import LightServer.Proofs.Wire.Acceptance
import LightServer.Sample.RawBlocks

/-!
# The cache of the assembled ingestor

The assembled ingestor asks its node by calls, and it is the only one to write
to its cache. Each call is written down with its reply, so that it can be said of a
cached block which answer it comes from. Whatever the node answers over time,
everything in the cache was parsed from what the node had answered for that
height, and the height that comes next is never beyond a gap.
-/

namespace LightServer

namespace Node

variable {height : Nat} {reply : Reply} {b : CompactBlock} {v : Json} {text : String}

namespace Query

theorem textResult_eq_ok_iff {method : String} :
    textResult method v = .ok text ↔ v = .string text := by
  cases v <;> simp [textResult]

theorem readBlock_eq_ok_iff :
    readBlock height v = .ok b ↔ ∃ text raw, v = .string text ∧ Hex.decode text = .ok raw ∧
      Wire.parse raw (UInt64.ofNat height) = .ok b := by
  unfold readBlock
  simp only [Outcome.bind_eq_ok_iff, textResult_eq_ok_iff, hexAs_eq_ok_iff]
  constructor
  · rintro ⟨text, rfl, raw, hraw, hb⟩
    split at hb
    next hparse =>
      cases hb
      exact ⟨text, raw, rfl, hraw, hparse⟩
    next => cases hb
  · rintro ⟨text, raw, rfl, hraw, hparse⟩
    refine ⟨text, rfl, raw, hraw, ?_⟩
    rw [hparse]
    rfl

/-- A block is read from a text of bytes that parse to it, and from nothing else. -/
theorem read_block_eq_some_iff :
    (block height).read reply = .ok (some b) ↔ ∃ text raw, reply = .ok (.string text) ∧
      Hex.decode text = .ok raw ∧ Wire.parse raw (UInt64.ofNat height) = .ok b := by
  cases reply with
  | error e =>
      refine iff_of_false ?_ nofun
      simp only [block]
      split
      · exact nofun
      · exact nofun
  | ok v =>
      have hread : (readBlock height v).map some = .ok (some b) ↔ readBlock height v = .ok b := by
        cases readBlock height v <;> simp [Except.map]
      simp only [block, hread, readBlock_eq_ok_iff, Except.ok.injEq]

end Query

end Node

/-- The block is what the bytes parse to that the node has answered for the height. -/
def Answered (log : List Consultation) (height : Nat) (b : CompactBlock) : Prop :=
  ∃ text raw, ⟨"getblock", [.string (Text.decimal height), .nat 0], .ok (.string text)⟩ ∈ log ∧
    Hex.decode text = .ok raw ∧ Wire.parse raw (UInt64.ofNat height) = .ok b

section Recording

variable {ν : Type} {call : String → List Json → ν → Delayed Node.Reply × ν}
  {s : Backend (ν × List Consultation)} {height : Nat} {b : CompactBlock}
  {log log' : List Consultation}

theorem Answered.mono (h : Answered log height b) (hlog : log <+: log') :
    Answered log' height b := by
  obtain ⟨text, raw, hmem, hraw, hb⟩ := h
  exact ⟨text, raw, hlog.subset hmem, hraw, hb⟩

theorem log_fetch_recording (height : Nat) (s : Backend (ν × List Consultation)) :
    s.world.2 <+: (s.fetch (.ofCall (recording call)) height).2.world.2 := ⟨_, rfl⟩

theorem reply_fetch_recording (height : Nat) (s : Backend (ν × List Consultation)) :
    (s.fetch (.ofCall (recording call)) height).1 =
      ((Node.Query.block height).read (call (Node.Query.block height).method
        (Node.Query.block height).params s.world.1).1.2).mapError .ofError := rfl

/-- A block that was fetched was answered. -/
theorem answered_of_fetch (h : (s.fetch (.ofCall (recording call)) height).1 = .ok (some b)) :
    Answered (s.fetch (.ofCall (recording call)) height).2.world.2 height b := by
  let q := Node.Query.block height
  let reply := (call q.method q.params s.world.1).1.2
  have hread : (q.read reply).mapError Node.SourceError.ofError = .ok (some b) :=
    (reply_fetch_recording height s).symm.trans h
  have hlog : (s.fetch (.ofCall (recording call)) height).2.world.2 =
      s.world.2 ++ [⟨q.method, q.params, reply⟩] := rfl
  cases hblock : q.read reply with
  | error e =>
      rw [hblock] at hread
      cases hread
  | ok found =>
      rw [hblock] at hread
      cases hread
      obtain ⟨text, raw, hreply, hraw, hb⟩ := Node.Query.read_block_eq_some_iff.mp hblock
      refine ⟨text, raw, ?_, hraw, hb⟩
      rw [hlog, hreply]
      exact List.mem_append_right _ (List.mem_singleton.mpr rfl)

end Recording

namespace Server.Assembly

open Ingest

variable {ν : Type} {call : String → List Json → ν → Delayed Node.Reply × ν} {c : Ingest.Config}
  {s : State} {v : CatchUp (ν × List Consultation)}

/-- In its world the ingestor remembers what the node has answered. -/
theorem remembers_recording :
    (catchUpEnvironment (.ofCall (recording call))).Remembers
      fun v => Answered v.backend.world.2 where
  fetched height v b v' h := by
    have hworld : ((catchUpEnvironment (.ofCall (recording call))).fetch height v).2 = v' :=
      congrArg Prod.snd h
    rw [← hworld]
    exact answered_of_fetch (congrArg Prod.fst h)
  fetch height v _ _ h := h.mono (log_fetch_recording height v.backend)
  add _ _ _ _ _ h := h
  count e _ _ _ h := by
    cases e <;> exact h

/-- While the ingestor rests nothing happens to the cache, and what was written down stays. -/
def Rests (v v' : CatchUp (ν × List Consultation)) : Prop :=
  v'.backend.cache = v.backend.cache ∧ v.backend.world.2 <+: v'.backend.world.2

def CatchUp.recorded (v : CatchUp ν) : CatchUp (ν × List Consultation) :=
  ⟨⟨(v.backend.world, []), v.backend.cache, v.backend.metrics, v.backend.now⟩, v.caughtUp⟩

/-- The height is at most the one that the cache takes next, so that nothing is offered beyond a
gap, and all entries of the cache were parsed from answers for their heights. -/
structure Orderly (c : Ingest.Config) (s : State) (v : CatchUp (ν × List Consultation)) :
    Prop where
  height_le : ∀ last, v.backend.cache.latestHeight = some last → s.height ≤ last + 1
  no_gap : ∀ b expected got,
    (v.backend.cache.add (s.rewind c.rewindStep).height b).1 ≠ .error (.heightGap expected got)
  entries : ∀ (height : UInt64) (e : Entry), v.backend.cache.entries[height.toNat]? = some e →
    ∃ b, v.backend.cache.get height.toNat = .ok (some b) ∧ e.hash = b.hash ∧ b.height = height ∧
      ∃ text raw, ⟨"getblock", [.string (Text.decimal height.toNat), .nat 0], .ok (.string text)⟩ ∈
          v.backend.world.2 ∧
        Hex.decode text = .ok raw ∧ Wire.parse raw height = .ok b ∧
        ∃ whole : Wire.Block, whole.WellFormed ∧ raw = whole.encode ∧
          whole.OpensWithCoinbase height.toNat

theorem orderly_of_pace {limit : Nat} (h : Pace c.rewindStep limit (Answered v.backend.world.2) s
    v.backend.cache) : Orderly c s v where
  height_le _ hlast := h.height_le hlast
  no_gap b _ _ := h.add_ne_heightGap b
  entries height e he := by
    obtain ⟨b, ⟨text, raw, hmem, hraw, hb⟩, hhash, hget⟩ := h.exists_of_entry he
    rw [UInt64.ofNat_toNat] at hb
    obtain ⟨whole, hwellFormed, hwhole, hopens, hcompact⟩ := Wire.parse_eq_ok_iff_compact.mp hb
    have hheight : b.height = height := by
      rw [hcompact]
      rfl
    exact ⟨b, hget (Wire.storable_of_parse hb), hhash, hheight, text, raw, hmem, hraw, hb, whole,
      hwellFormed, hwhole, hopens⟩

/-- Whenever a turn of the assembled ingestor begins, its height and its cache are in order,
whatever the node answers over time. -/
theorem orderly_of_visits {maxEntries start : Nat} {v₀ : CatchUp ν}
    (hcache : v₀.backend.cache = .empty .standard maxEntries)
    (hvisit : Visits c (catchUpEnvironment (.ofCall (recording call))) Rests (.start start)
      v₀.recorded s v) : Orderly c s v := by
  have hempty := pace_empty c.rewindStep start maxEntries (Answered [])
  rw [← hcache] at hempty
  exact orderly_of_pace (hvisit.pace (feeds_catchUpEnvironment _) remembers_recording
    (fun v v' h => ⟨h.1, fun g y hy => hy.mono h.2⟩) hempty)

def loneBlock : Wire.Block := ⟨Sample.header (Octets.zero 32) 0, [Sample.coinbase 0]⟩

theorem wellFormed_coinbase_zero : (Sample.coinbase 0).WellFormed where
  inputs := ⟨by decide, List.forall_mem_singleton.mpr (by unfold Wire.Input.WellFormed; decide)⟩
  outputs := ⟨by decide, List.forall_mem_singleton.mpr (by unfold Wire.Output.WellFormed; decide)⟩
  spends := by decide
  shieldedOutputs := by decide
  joinSplits := by decide
  without_shielded _ := ⟨rfl, rfl⟩
  without_joinSplits _ := rfl

theorem wellFormed_loneBlock : loneBlock.WellFormed where
  header := by
    have hlength : loneBlock.header.solution.length = 1344 := List.length_replicate
    unfold Wire.Header.WellFormed
    rw [hlength]
    decide
  count := by decide
  transactions := List.forall_mem_singleton.mpr wellFormed_coinbase_zero

theorem opens_loneBlock : loneBlock.OpensWithCoinbase 0 :=
  ⟨_, [], _, rfl, rfl, rfl, rfl, fun h => absurd h (Nat.lt_irrefl 0)⟩

def loneNode : String → List Json → Unit → Delayed Node.Reply × Unit :=
  fun _ _ w => ((0, .ok (.string (Hex.encode loneBlock.encode))), w)

theorem fetch_loneNode (s : Backend (Unit × List Consultation)) :
    (s.fetch (.ofCall (recording loneNode)) 0).1 = .ok (some (loneBlock.compact 0)) := by
  have hparse : Wire.parse loneBlock.encode 0 = .ok (loneBlock.compact 0) :=
    Wire.parse_eq_ok_iff_compact.mpr ⟨_, wellFormed_loneBlock, rfl, opens_loneBlock, rfl⟩
  have hread := Node.Query.read_block_eq_some_iff.mpr
    ⟨_, _, rfl, Hex.decode_encode loneBlock.encode, hparse⟩
  rw [reply_fetch_recording]
  unfold loneNode
  simp only
  rw [hread]
  rfl

/-- Over that node the first turn stores the block, and the ingestor is in order. -/
theorem orderly_of_visits_loneNode :
    freshServer.backend.cache = .empty .standard 100 ∧ ∃ s v,
      Visits .default (catchUpEnvironment (.ofCall (recording loneNode))) Rests (.start 0)
        freshServer.recorded s v ∧
      v.backend.cache.latestHeight = some 0 ∧ Orderly .default s v := by
  obtain ⟨w', hadd, hholds⟩ := Cache.add_of_fresh (c := Cache.empty .standard 100) (h := 0)
    (b := loneBlock.compact 0) rfl rfl rfl
  obtain ⟨v', hturn, hcache, -⟩ := exists_turn_of_add (c := Ingest.Config.default)
    (p := .ofCall (recording loneNode)) (v := freshServer.recorded)
    (State.asks_start _ 0) (Nat.zero_le _) (fetch_loneNode _) hadd
  have hvisit : Visits .default (catchUpEnvironment (.ofCall (recording loneNode))) Rests
      (.start 0) freshServer.recorded _ v' := Visits.start.goOn hturn
  refine ⟨rfl, _, v', hvisit, ?_, orderly_of_visits rfl hvisit⟩
  rw [hcache, hholds.latestHeight_eq]
  rfl

end Server.Assembly

end LightServer
