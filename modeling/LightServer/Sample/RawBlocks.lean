import LightServer.Wire.Block
import LightServer.Bytes.Utf8

/-!
# Synthetic serialized blocks

Transactions of three kinds, and blocks and chains that hold them.
-/

namespace LightServer.Sample

open LightServer.Wire

/-- The bytes of a number without zeros at its end, least significant byte first. -/
def minimalBytes (n : Nat) : Bytes :=
  if n = 0 then [] else UInt8.ofNat n :: minimalBytes (n / 256)
termination_by n

/-- The script that commits to a height: a number of one byte up to 16, and above
that the bytes of a number with a sign, after their count. -/
def heightScript (height : Nat) : Bytes :=
  if height = 0 then [0]
  else if height ≤ 16 then [UInt8.ofNat (0x50 + height)]
  else
    let digits := minimalBytes height
    let signed := if 0x80 ≤ digits.getLastD 0 then digits ++ [0] else digits
    UInt8.ofNat signed.length :: signed

def coinbase (height : Nat) : Transaction where
  version := .one
  group := Octets.zero _
  inputs := [{
    prevHash := Octets.zero 32
    prevIndex := Octets.fill 4 0xFF
    script := heightScript height ++ utf8 "lightwalletd"
    sequence := Octets.fill 4 0xFF }]
  outputs := [{ value := Octets.ofNat 8 625000000, script := List.replicate 25 0x76 }]
  lockTime := Octets.zero 4
  expiry := Octets.zero _
  balance := Octets.zero _
  spends := []
  shieldedOutputs := []
  joinSplits := JoinSplits.none _
  bindingSignature := Octets.zero _

def spend (b : UInt8) : Spend :=
  ⟨List.replicate 64 0 ++ List.replicate 32 b ++ List.replicate 288 0,
    by simp only [List.length_append, List.length_replicate]⟩

def shieldedOutput (commitment key text : UInt8) : ShieldedOutput :=
  ⟨List.replicate 32 0 ++ List.replicate 32 commitment ++ List.replicate 32 key ++
    List.replicate 580 text ++ List.replicate 272 0,
    by simp only [List.length_append, List.length_replicate]⟩

def shielded (spends outputs : Nat) (b : UInt8) : Transaction where
  version := .four
  group := Octets.ofNat 4 0x892F2085
  inputs := []
  outputs := []
  lockTime := Octets.zero 4
  expiry := Octets.zero 4
  balance := Octets.zero 8
  spends := List.replicate spends (spend b)
  shieldedOutputs := List.replicate outputs (shieldedOutput (b + 1) (b + 2) (b + 3))
  joinSplits := JoinSplits.none _
  bindingSignature := Octets.zero _

def joined (count : Nat) : Transaction where
  version := .two
  group := Octets.zero _
  inputs := []
  outputs := []
  lockTime := Octets.zero 4
  expiry := Octets.zero _
  balance := Octets.zero _
  spends := []
  shieldedOutputs := []
  joinSplits := { count := count, body := Octets.zero _, closing := Octets.zero _ }
  bindingSignature := Octets.zero _

def header (prevHash : Hash) (time : UInt32) : Header where
  version := Octets.ofNat 4 4
  prevHash := prevHash
  merkleRoot := Octets.zero 32
  saplingRoot := Octets.zero 32
  time := Octets.ofNat 4 time.toNat
  bits := Octets.ofNat 4 0x1D00FFFF
  nonce := Octets.zero 32
  solution := List.replicate 1344 0

/-- The bytes of a size in a sample block. There is no form of eight bytes, so of a large number
only the four low bytes are written. -/
def sizeBytes (n : Nat) : Bytes :=
  if n ≤ 0xFC then [UInt8.ofNat n]
  else if n ≤ 0xFFFF then 0xFD :: Bytes.leBytes 2 n
  else 0xFE :: Bytes.leBytes 4 n

def rawBlock (prevHash : Hash) (time : UInt32) (txs : List Bytes) : Bytes :=
  (header prevHash time).encode ++ sizeBytes txs.length ++ txs.flatten

def chainBlock (salt : UInt32) (prevHash : Hash) (height : Nat) : Block where
  header := header prevHash (1600000000 + salt * 1000000 + UInt32.ofNat height)
  transactions := [coinbase height, shielded 1 1 (UInt8.ofNat height)]

/-- Linked serialized blocks from a height on, each with a coinbase and one shielded
transaction. -/
def rawChain (salt : UInt32) : Nat → Hash → Nat → List Bytes
  | _, _, 0 => []
  | height, parent, n + 1 =>
      let b := chainBlock salt parent height
      b.encode :: rawChain salt (height + 1) b.header.hash n

end LightServer.Sample
