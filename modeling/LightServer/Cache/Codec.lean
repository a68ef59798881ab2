import LightServer.Chain.Encoding

/-!
# Codecs for cached blocks

The cache keeps blocks as bytes. A codec writes and reads them, and may refuse to
do either.
-/

namespace LightServer

structure CodecError where
  text : String
  deriving DecidableEq, Repr

def CodecError.message (e : CodecError) : String := "codec error: " ++ e.text

structure EntryCodec where
  encode : CompactBlock → Except CodecError Bytes
  decode : Bytes → Except CodecError CompactBlock

namespace EntryCodec

def standard : EntryCodec where
  encode b := .ok (Encoding.encode b)
  decode s :=
    match Encoding.decode s with
    | some b => .ok b
    | none => .error ⟨"<bincode error>"⟩

def refusing (writing reading : List Nat) : EntryCodec where
  encode b :=
    if writing.contains b.height.toNat then .error ⟨"refused"⟩ else standard.encode b
  decode s :=
    match standard.decode s with
    | .ok b => if reading.contains b.height.toNat then .error ⟨"refused"⟩ else .ok b
    | .error e => .error e

end EntryCodec

end LightServer
