import LightServer.Proofs.Wire.Grammar
import LightServer.Proofs.Wire.Thrift
import LightServer.Proofs.Wire.Walk

/-!
# Walks over blocks

The walk over a block keeps what a compact block needs and passes over the rest. It follows
the reader of blocks part by part. So on any bytes that a machine can hold it stays
inside, no count or size overflows, and since the reader is thrifty, it begins no more
items than there are bytes.
-/

namespace LightServer.Wire

open Walk

variable {data : Bytes}

/-- The number that the bytes denote, put together by shifts. The bytes before, `i` of them, have
made `acc`. -/
def Walk.shifted : Nat → Nat → Bytes → Walk Nat
  | _, acc, [] => pure acc
  | i, acc, b :: s => do
      let amount ← word (8 * i)
      if amount < 64 then
        shifted (i + 1) (acc ||| (b.toNat <<< amount) % (Text.maxWord64 + 1)) s
      else stop .overflow

def Walk.scriptNumber (n : Nat) (script : Bytes) : Walk (Option Nat) := do
  let stop ← word (1 + n)
  if stop ≤ script.length then do
    let v ← shifted 0 0 ((script.take stop).drop 1)
    return some v
  else pure none

def Walk.coinbaseHeight : Bytes → Walk (Option Nat)
  | [] => pure none
  | op :: s =>
      if op = 0 then pure (some 0)
      else if 0x51 ≤ op ∧ op ≤ 0x60 then pure (some (op.toNat - 0x50))
      else if 1 ≤ op ∧ op ≤ 8 then scriptNumber op.toNat (op :: s)
      else pure none

def Input.walk : Walk Input := do
  let prevHash ← Walk.take 32 "prevout hash"
  let prevIndex ← Walk.take 4 "prevout index"
  let script ← Walk.varBytes "scriptSig"
  let sequence ← Walk.take 4 "sequence"
  return { prevHash, prevIndex, script, sequence }

def Output.walk : Walk Unit := do
  Walk.skip 8 "value"
  let _ ← Walk.varBytes "scriptPubKey"

def JoinSplits.walk (size : Nat) : Walk Unit := do
  let count ← Walk.count "joinsplit count" size
  let total ← word (count * size)
  Walk.skip total "joinsplits"
  Walk.skip (if count = 0 then 0 else 96) "joinsplit pubkey and signature"

namespace Transaction

/-- The script of the only input, if that input refers to no earlier output. -/
def coinbaseScriptOf : List Input → Option Bytes
  | [i] => if i.isNull then some i.script else none
  | _ => none

structure Parts where
  coinbaseScript : Option Bytes
  spends : List Hash
  outputs : List CompactOutput

def parts (t : Transaction) : Parts :=
  ⟨t.coinbaseScript?, t.spends.map Spend.nullifier, t.shieldedOutputs.map ShieldedOutput.compact⟩

def walkShielded {α : Type} (v : Version) (size : Nat) (counted each : String)
    (keep : Octets size → α) : Walk (List α) :=
  if v.hasShielded then
    Walk.list counted size do
      let x ← Walk.take size each
      return keep x
  else pure []

def walkJoinSplits (v : Version) : Walk Unit :=
  if v.hasJoinSplits then JoinSplits.walk v.joinSplitSize else pure ()

def walkBody (version : Version) : Walk Parts := do
  Walk.skip version.stampSize "version group id"
  let inputs ← Walk.list "tx_in count" Input.minSize Input.walk
  let _ ← Walk.list "tx_out count" Output.minSize Output.walk
  Walk.skip 4 "lock time"
  Walk.skip version.stampSize "expiry height"
  Walk.skip version.balanceSize "value balance"
  let spends ← walkShielded version 384 "spend count" "spend description" Spend.nullifier
  let outputs ← walkShielded version 948 "output count" "output description"
    ShieldedOutput.compact
  walkJoinSplits version
  Walk.skip (if spends.isEmpty && outputs.isEmpty then 0 else 64) "binding signature"
  return ⟨coinbaseScriptOf inputs, spends, outputs⟩

def walkParts : Walk Parts := do
  let header ← Walk.number 4 "tx header"
  match Version.ofHeader? header with
  | some version => walkBody version
  | none => Walk.refuse (.unsupportedVersion (header % 0x80000000))

def walk : Walk (Parts × Hash) := do
  let found ← spanned walkParts
  return (found.1, Sha256.double found.2)

end Transaction

def Header.walk : Walk (Hash × UInt32) := do
  Walk.skip 4 "block version"
  let prevHash ← Walk.take 32 "prev hash"
  Walk.skip 32 "merkle root"
  Walk.skip 32 "final sapling root"
  let time ← Walk.number 4 "time"
  Walk.skip 4 "bits"
  Walk.skip 32 "nonce"
  let _ ← Walk.varBytes "equihash solution"
  return (prevHash, UInt32.ofNat time)

namespace Block

def checkCoinbase (height : Nat) (script : Option Bytes) : Walk Unit :=
  match script with
  | none => Walk.refuse .missingCoinbase
  | some script =>
      if height = 0 then pure ()
      else do
        match ← coinbaseHeight script with
        | none => pure ()
        | some found =>
            if found = height then pure () else Walk.refuse (.heightMismatch height found)

def walkCoinbase (height : Nat) : Walk (Transaction.Parts × Hash) := do
  let t ← Transaction.walk
  checkCoinbase height t.1.coinbaseScript
  return t

def walkTransactions (height : Nat) : Nat → Walk (List (Transaction.Parts × Hash))
  | 0 => Walk.refuse .missingCoinbase
  | n + 1 => do
      let first ← Walk.item (walkCoinbase height)
      let others ← Walk.times Transaction.walk n
      return first :: others

def walkEnd : Walk Unit := do
  let left ← Walk.remaining
  if left = 0 then pure () else Walk.refuse (.trailingBytes left)

/-- The transactions with shielded parts, with their positions from `index` on. -/
def compactParts : Nat → List (Transaction.Parts × Hash) → List CompactTx
  | _, [] => []
  | index, t :: ts =>
      if !t.1.spends.isEmpty || !t.1.outputs.isEmpty then
        ⟨UInt64.ofNat index, t.2, 0, t.1.spends, t.1.outputs⟩ :: compactParts (index + 1) ts
      else compactParts (index + 1) ts

def walk (height : UInt64) : Walk CompactBlock := do
  let header ← spanned Header.walk
  let n ← Walk.count "tx count" 4
  let ts ← walkTransactions height.toNat n
  walkEnd
  return {
    version := CompactBlock.currentVersion, height, hash := Sha256.double header.2,
    prevHash := header.1.1, time := header.1.2, header := [], transactions := compactParts 0 ts }

end Block

section Height

variable {t : Track} {i acc n : Nat} {s : Bytes} {b : UInt8}

theorem pow_two_eight_mul (i : Nat) : Nat.pow 2 (8 * i) = Nat.pow 256 i := Nat.pow_mul 2 8 i

theorem shiftLeft_eq_pow (b : UInt8) (i : Nat) : b.toNat <<< (8 * i) = Nat.pow 256 i * b.toNat := by
  have hshift : b.toNat <<< (8 * i) = b.toNat * Nat.pow 2 (8 * i) := Nat.shiftLeft_eq _ _
  rw [hshift, pow_two_eight_mul, Nat.mul_comm]

/-- Bytes below the shifted one keep their bits. -/
theorem or_shiftLeft_eq (hacc : acc < Nat.pow 256 i) :
    acc ||| b.toNat <<< (8 * i) = acc + Nat.pow 256 i * b.toNat := by
  have hlow : acc < Nat.pow 2 (8 * i) := by rwa [pow_two_eight_mul]
  have hadd : b.toNat <<< (8 * i) + acc = b.toNat <<< (8 * i) ||| acc :=
    Nat.shiftLeft_add_eq_or_of_lt hlow b.toNat
  rw [Nat.or_comm, ← hadd, shiftLeft_eq_pow, Nat.add_comm]

theorem Walk.shifted_eq (hi : i + s.length ≤ 8) (hacc : acc < Nat.pow 256 i) :
    shifted i acc s data t = ⟨.ok (acc + Nat.pow 256 i * Bytes.leNat s), t⟩ := by
  have hmax : Text.maxWord64 = 0xFFFFFFFFFFFFFFFF := rfl
  have hbound : Nat.pow 256 8 = 0x10000000000000000 := rfl
  induction s generalizing i acc with
  | nil => rfl
  | cons b s ih =>
      rw [List.length_cons] at hi
      have hb := b.toNat_lt
      have hword : word (8 * i) data t = ⟨.ok (8 * i), t⟩ := word_eq (by omega)
      have hpow : Nat.pow 256 (i + 1) = Nat.pow 256 i * 256 := rfl
      have hle : Nat.pow 256 (i + 1) ≤ Nat.pow 256 8 := Nat.pow_le_pow_right (by decide) (by omega)
      have hpart : Nat.pow 256 i * b.toNat + Nat.pow 256 i ≤ Nat.pow 256 i * 256 := by
        rw [← Nat.mul_succ]
        exact Nat.mul_le_mul_left _ hb
      have hmod : b.toNat <<< (8 * i) % (Text.maxWord64 + 1) = b.toNat <<< (8 * i) := by
        rw [shiftLeft_eq_pow]
        exact Nat.mod_eq_of_lt (by omega)
      rw [shifted, bind_of_ok hword, if_pos (by omega), hmod, or_shiftLeft_eq hacc,
        ih (by omega) (by omega), hpow, Bytes.leNat_cons, Nat.mul_add, ← Nat.mul_assoc,
        Nat.add_assoc]

theorem Walk.scriptNumber_eq (hn : n ≤ 8) (op : UInt8) (s : Bytes) :
    scriptNumber n (op :: s) data t =
      ⟨.ok ((Octets.take? n s).map fun p => p.1.toNat), t⟩ := by
  have hword : word (1 + n) data t = ⟨.ok (1 + n), t⟩ :=
    word_eq (Nat.le_trans (Nat.add_le_add_left hn 1) (by decide))
  rw [scriptNumber, bind_of_ok hword]
  cases htake : Octets.take? n s with
  | none =>
      have hshort := Octets.take?_eq_none_iff.mp htake
      rw [if_neg (by rw [List.length_cons]; omega)]
      rfl
  | some p =>
      obtain ⟨x, rest⟩ := p
      obtain rfl := Octets.eq_append_of_take? htake
      have hbytes : ((op :: (x.bytes ++ rest)).take (1 + n)).drop 1 = x.bytes := by
        rw [Nat.add_comm, List.take_succ_cons, List.drop_succ_cons, List.drop_zero,
          List.take_left' x.length_eq]
      have hshifted : shifted 0 0 x.bytes data t = ⟨.ok (0 + 1 * x.toNat), t⟩ :=
        shifted_eq (by rw [x.length_eq]; omega) (by decide)
      rw [Nat.one_mul, Nat.zero_add] at hshifted
      rw [if_pos (by rw [List.length_cons, List.length_append, x.length_eq]; omega), hbytes,
        bind_of_ok hshifted]
      rfl

theorem Walk.coinbaseHeight_eq (script : Bytes) :
    coinbaseHeight script data t = ⟨.ok (coinbaseHeight? script), t⟩ := by
  cases script with
  | nil => rfl
  | cons op s =>
      rw [coinbaseHeight, coinbaseHeight?]
      by_cases hzero : op = 0
      · rw [if_pos hzero, if_pos hzero]
        rfl
      rw [if_neg hzero, if_neg hzero]
      by_cases hsmall : 0x51 ≤ op ∧ op ≤ 0x60
      · rw [if_pos hsmall, if_pos hsmall]
        rfl
      rw [if_neg hsmall, if_neg hsmall]
      by_cases hcount : 1 ≤ op ∧ op ≤ 8
      · have hop : op.toNat ≤ 8 := hcount.2
        rw [if_pos hcount, if_pos hcount, scriptNumber_eq hop]
      · rw [if_neg hcount, if_neg hcount]
        rfl

end Height

section Follow

variable (hdata : data.length < Text.maxWord64)
include hdata

theorem Input.follows_walk : Follows data id Input.walk Input.read :=
  (follows_take hdata _ _).bind fun _ => (follows_take hdata _ _).bind fun _ =>
    (follows_varBytes hdata _).bind fun _ => (follows_take hdata _ _).bind fun _ => follows_pure _ _

theorem Output.follows_walk : Follows data (fun _ => ()) Output.walk Output.read :=
  (follows_skip hdata _ _).bind fun _ => (follows_varBytes hdata _).bind fun _ =>
    follows_pure (fun _ => ()) _

/-- The size of the joinsplits is at most that of what is left. -/
theorem JoinSplits.follows_walk (size : Nat) :
    Follows data (fun _ => ()) (JoinSplits.walk size) (JoinSplits.read size) := by
  intro t ht
  refine (follows_count hdata _ _ t ht).bind fun count t' hyields ht' => ?_
  obtain ⟨-, hfits, -⟩ := Reader.yields_count.mp hyields
  rw [List.length_drop] at hfits
  have hsize : count * size ≤ count * max size 1 := Nat.mul_le_mul_left _ (Nat.le_max_left _ _)
  refine .silent (word_eq (by rw [id_eq]; omega)) ?_
  refine ((follows_skip hdata _ _).bind fun _ => ?_) t' ht'
  exact (follows_take hdata _ _).bind fun _ => follows_pure (fun _ => ()) _

namespace Transaction

theorem follows_walkShielded (v : Version) {α : Type} (size : Nat) (counted each : String)
    (keep : Octets size → α) :
    Follows data (List.map keep) (walkShielded v size counted each keep)
      (readShielded v size counted each) := by
  unfold walkShielded readShielded
  split
  · exact ((follows_take hdata size each).map keep).list hdata counted size
  · exact follows_pure (List.map keep) []

theorem follows_walkJoinSplits (v : Version) :
    Follows data (fun _ => ()) (walkJoinSplits v) (readJoinSplits v) := by
  unfold walkJoinSplits readJoinSplits
  split
  · exact JoinSplits.follows_walk hdata _
  · exact follows_pure (fun _ => ()) _

theorem follows_walkBody (v : Version) : Follows data parts (walkBody v) (readBody v) := by
  refine (follows_skip hdata _ _).bind fun group => ?_
  refine ((Input.follows_walk hdata).list hdata _ _).bind fun inputs => ?_
  refine ((Output.follows_walk hdata).list hdata _ _).bind fun outputs => ?_
  refine (follows_skip hdata _ _).bind fun lockTime => ?_
  refine (follows_skip hdata _ _).bind fun expiry => ?_
  refine (follows_skip hdata _ _).bind fun balance => ?_
  refine (follows_walkShielded hdata _ _ _ _ _).bind fun spends => ?_
  refine (follows_walkShielded hdata _ _ _ _ _).bind fun shieldedOutputs => ?_
  refine (follows_walkJoinSplits hdata _).bind fun joinSplits => ?_
  simp only [List.isEmpty_map, List.map_id]
  refine (follows_skip hdata _ _).bind fun bindingSignature => ?_
  exact follows_pure parts {
    version := v, group, inputs, outputs, lockTime, expiry, balance, spends, shieldedOutputs,
    joinSplits, bindingSignature }

theorem follows_walkParts : Follows data parts walkParts Transaction.read := by
  refine (follows_number hdata _ _).bind fun header => ?_
  simp only [id_eq]
  cases Version.ofHeader? header with
  | some v => exact follows_walkBody hdata v
  | none => exact follows_refuse _ _

/-- What is hashed is the serialization. -/
theorem follows_walk :
    Follows data (fun t => (t.parts, t.hash)) Transaction.walk Transaction.read :=
  ((follows_walkParts hdata).spanned accepts_read).map fun found =>
    (found.1, Sha256.double found.2)

end Transaction

def Header.parts (h : Header) : Hash × UInt32 := (h.prevHash, UInt32.ofNat h.time.toNat)

theorem Header.follows_walk : Follows data Header.parts Header.walk Header.read := by
  refine (follows_skip hdata _ _).bind fun version => ?_
  refine (follows_take hdata _ _).bind fun prevHash => ?_
  refine (follows_skip hdata _ _).bind fun merkleRoot => ?_
  refine (follows_skip hdata _ _).bind fun saplingRoot => ?_
  refine ((follows_take hdata _ _).map Octets.toNat).bind fun time => ?_
  refine (follows_skip hdata _ _).bind fun bits => ?_
  refine (follows_skip hdata _ _).bind fun nonce => ?_
  refine (follows_varBytes hdata _).bind fun solution => ?_
  exact follows_pure Header.parts {
    version, prevHash, merkleRoot, saplingRoot, time, bits, nonce, solution }

namespace Block

def kept (t : Transaction) : Transaction.Parts × Hash := (t.parts, t.hash)

omit hdata in
theorem checkCoinbase_eq (height : Nat) (t : Transaction) :
    (checkCoinbase height t.parts.coinbaseScript : Walk Unit) =
      match coinbaseFault? height t with
      | none => pure ()
      | some fault => Walk.refuse fault := by
  change checkCoinbase height t.coinbaseScript? = _
  unfold checkCoinbase coinbaseFault?
  cases t.coinbaseScript? with
  | none => rfl
  | some script =>
      funext data t
      by_cases hzero : height = 0
      · simp only [hzero, true_or, if_true]
        cases coinbaseHeight? script <;> rfl
      · simp only [if_neg hzero, bind_of_ok (coinbaseHeight_eq script)]
        cases coinbaseHeight? script with
        | none => rfl
        | some found => by_cases hfound : found = height <;> simp [hzero, hfound]

theorem follows_walkCoinbase (height : Nat) :
    Follows data kept (walkCoinbase height) (readCoinbase height) := by
  refine (Transaction.follows_walk hdata).bind fun t => ?_
  simp only [checkCoinbase_eq]
  cases coinbaseFault? height t with
  | none => exact follows_pure kept t
  | some fault => exact follows_refuse kept fault

theorem follows_walkTransactions (height n : Nat) :
    Follows data (List.map kept) (walkTransactions height n) (readTransactions height n) := by
  cases n with
  | zero => exact follows_refuse _ _
  | succ n =>
      exact (follows_walkCoinbase hdata height).item.bind fun first =>
        ((Transaction.follows_walk hdata).times n).bind fun others =>
          follows_pure (List.map kept) (first :: others)

omit hdata in
theorem follows_walkEnd : Follows data id walkEnd readEnd := by
  intro t ht
  refine .silent (remaining_eq ht) ?_
  have hlength : (data.drop t.pos).length = data.length - t.pos := List.length_drop
  by_cases hend : data.length - t.pos = 0
  · rw [if_pos hend]
    refine .of_still (o := .ok ()) ht rfl (if_pos ?_)
    rw [List.isEmpty_iff_length_eq_zero, hlength, hend]
  · rw [if_neg hend]
    refine .of_still (o := .error (.trailingBytes (data.length - t.pos))) ht rfl ?_
    rw [readEnd, if_neg (by rwa [List.isEmpty_iff_length_eq_zero, hlength]), hlength]

omit hdata in
theorem compactParts_map_kept (index : Nat) (ts : List Transaction) :
    compactParts index (ts.map kept) = compactTransactions index ts := by
  induction ts generalizing index with
  | nil => rfl
  | cons t ts ih =>
      have hshielded :
          (!(kept t).1.spends.isEmpty || !(kept t).1.outputs.isEmpty) = t.isShielded := by
        simp [kept, Transaction.parts, Transaction.isShielded]
      rw [List.map_cons, compactParts, hshielded, compactTransactions, ih]
      rfl

theorem follows_walk (height : UInt64) :
    Follows data (Block.compact height) (Block.walk height) (Block.read height.toNat) := by
  refine ((Header.follows_walk hdata).spanned Header.accepts_read).bind fun header => ?_
  refine (follows_count hdata _ _).bind fun n => ?_
  refine (follows_walkTransactions hdata _ _).bind fun transactions => ?_
  refine follows_walkEnd.bind fun _ => ?_
  rw [compactParts_map_kept]
  exact follows_pure (Block.compact height) { header, transactions }

end Block

end Follow

def walkOver (raw : Bytes) (height : UInt64) : Walked CompactBlock :=
  Block.walk height raw Track.start

/-- A walk over bytes that a machine can hold ends as the bytes parse, so no result of arithmetic
overflows and no slice is outside. The cursor stays inside, what is read is there, and the items of
every count that is accepted fit into what is left. The items that are begun are those of the
reader, whether the bytes are a block or not, and there are no more of them than there are bytes. -/
theorem walkOver_within_bytes (raw : Bytes) (hraw : raw.length < Nat.pow 2 63) (height : UInt64) :
    (walkOver raw height).outcome = (parse raw height).mapError .refused ∧
    (walkOver raw height).track.pos ≤ raw.length ∧
    (∀ a ∈ (walkOver raw height).track.notes, a.Holds raw.length) ∧
    (walkOver raw height).track.notes.count .began = (Block.read height.toNat raw).items ∧
    (walkOver raw height).track.notes.count .began ≤ raw.length := by
  have hdata : raw.length < Text.maxWord64 := Nat.lt_trans hraw (by decide)
  obtain ⟨houtcome, -, -, hinside, new, hnew, hholds, hbegan⟩ :=
    Block.follows_walk hdata height Track.start (Nat.zero_le _)
  have hnotes : (walkOver raw height).track.notes = new := hnew
  have hitems := Block.items_read_le height.toNat raw
  rw [hnotes]
  exact ⟨houtcome, hinside, hholds, hbegan, Nat.le_trans (Nat.le_of_eq hbegan) hitems⟩

/-- A block whose only transaction claims as many joinsplits as a word can express. -/
def overclaiming : Bytes :=
  List.replicate 141 0 ++ [1, 2, 0, 0, 0, 0, 0, 0, 0, 0, 0] ++ List.replicate 9 0xFF

set_option maxRecDepth 4000 in
theorem read_overclaiming : Block.read 1 overclaiming =
    ⟨.error (.unexpectedEnd "joinsplit count" Text.maxWord64 0), [], 1⟩ := rfl

/-- The claim is refused at the end of the bytes, with one item begun. -/
theorem walkOver_within_bytes_overclaiming :
    overclaiming.length < Nat.pow 2 63 ∧
    (walkOver overclaiming 1).outcome =
      .error (.refused (.unexpectedEnd "joinsplit count" Text.maxWord64 0)) ∧
    (walkOver overclaiming 1).track.pos ≤ overclaiming.length ∧
    (∀ a ∈ (walkOver overclaiming 1).track.notes, a.Holds overclaiming.length) ∧
    (walkOver overclaiming 1).track.notes.count .began = 1 ∧ 1 ≤ overclaiming.length := by
  have hshort : overclaiming.length < Nat.pow 2 63 := by
    simp only [overclaiming, List.length_append, List.length_replicate, List.length_cons]
    decide
  obtain ⟨houtcome, hinside, hholds, hbegan, hle⟩ := walkOver_within_bytes overclaiming hshort 1
  have hparse : parse overclaiming 1 =
      .error (.unexpectedEnd "joinsplit count" Text.maxWord64 0) :=
    congrArg (fun reading => reading.outcome.map (Block.compact 1)) read_overclaiming
  have hone := hbegan.trans (congrArg Reading.items read_overclaiming)
  rw [hparse] at houtcome
  rw [hone] at hle
  exact ⟨hshort, houtcome, hinside, hholds, hone, hle⟩

end LightServer.Wire
