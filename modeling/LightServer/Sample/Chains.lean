import LightServer.Chain.Block
import LightServer.Bytes.Sha256
import LightServer.Bytes.Utf8

/-!
# Synthetic chains of compact blocks

Blocks without transactions whose hashes link them. The hash of a block depends
on a salt, its height and its parent, so chains with different salts are forks of
each other above the block they share.
-/

namespace LightServer.Sample

/-- The hash of the parent of the first block of a chain, on which all forks agree. -/
def anchorHash (height : Nat) : Hash :=
  Sha256.digest (utf8 "anchor" ++ Bytes.leBytes 8 height)

def block (salt : UInt8) (height : Nat) (prevHash : Hash) : CompactBlock where
  version := CompactBlock.currentVersion
  height := UInt64.ofNat height
  hash := Sha256.digest (salt :: Bytes.leBytes 8 height ++ prevHash.bytes)
  prevHash := prevHash
  time := 1700000000 + UInt32.ofNat height
  header := []
  transactions := []

def chainFrom (salt : UInt8) : Nat → Hash → Nat → List CompactBlock
  | _, _, 0 => []
  | height, parent, n + 1 =>
      let b := block salt height parent
      b :: chainFrom salt (height + 1) b.hash n

def chain (salt : UInt8) (start : Nat) (count : Nat) : List CompactBlock :=
  chainFrom salt start (if start = 0 then Octets.zero 32 else anchorHash (start - 1)) count

def fork (salt : UInt8) (parent : CompactBlock) (count : Nat) : List CompactBlock :=
  chainFrom salt (parent.height.toNat + 1) parent.hash count

end LightServer.Sample
