import Std.Data.ExtTreeMap
import LightServer.Cache.Codec
import LightServer.Cache.Window
import LightServer.Text.Integer

/-!
# The block cache

The cache holds the blocks of a window of heights, which grows at its end and loses
its first height when it is full. A block is stored only on top of the block that it
names as its parent. Offering a block for a height that is already held takes away
the blocks from that height on, and one for a height below the window empties the
cache, in both cases before the link is checked.
-/

namespace LightServer

/-- A cached block as bytes, with its hash kept apart. -/
structure Entry where
  data : Bytes
  hash : Hash
  deriving DecidableEq

abbrev Entries := Std.ExtTreeMap Nat Entry

inductive AddOutcome where
  | stored (evicted : Option Nat)
  | reorgDetected
  deriving DecidableEq, Repr

inductive CacheError where
  | encoding (height : Nat) (error : CodecError)
  | heightGap (expected got : Nat)
  deriving DecidableEq, Repr

def CacheError.message : CacheError → String
  | encoding height error =>
      "entry encoding failed at height " ++ Text.decimal height ++ ": " ++ error.message
  | heightGap expected got =>
      "height gap: expected at most " ++ Text.decimal expected ++ ", got " ++ Text.decimal got

/-- A cache of at most `capacity` blocks. It has no window until a block is offered. -/
structure Cache where
  codec : EntryCodec
  capacity : Nat
  capacity_pos : 0 < capacity
  window : Option Window
  entries : Entries

namespace Cache

/-- The empty cache. It has room for one block at least. -/
def empty (codec : EntryCodec) (maxEntries : Nat) : Cache where
  codec := codec
  capacity := max maxEntries 1
  capacity_pos := Nat.lt_of_lt_of_le Nat.one_pos (Nat.le_max_right _ _)
  window := none
  entries := ∅

def size (c : Cache) : Nat := c.entries.size

def latestHeight (c : Cache) : Option Nat := c.window.bind Window.last?

def bounds (c : Cache) : Option (Nat × Nat) :=
  c.window.bind fun w => w.last?.map fun last => (w.first, last)

def get (height : Nat) (c : Cache) : Except CacheError (Option CompactBlock) :=
  match c.entries[height]? with
  | none => .ok none
  | some e =>
      match c.codec.decode e.data with
      | .ok b => .ok (some b)
      | .error err => .error (.encoding height err)

def makeRoom (height : Nat) (w : Window) (entries : Entries) :
    Except CacheError (Window × Entries) :=
  if height < w.first then .ok (Window.primed height, ∅)
  else if height ∈ w then
    .ok (w.truncate height, entries.filter fun h _ => !(height ≤ h && h < w.next))
  else if w.next < height then .error (.heightGap w.next height)
  else .ok (w, entries)

/-- The entry below a height does not stop the block from being stored there. -/
def fitsAbove (height : Nat) (b : CompactBlock) (entries : Entries) : Bool :=
  if height = 0 then true
  else
    match entries[height - 1]? with
    | none => true
    | some e => decide (b.Extends e.hash)

def evict (capacity : Nat) (w : Window) (entries : Entries) :
    Option Nat × Window × Entries :=
  if w.Bounded capacity then (none, w, entries)
  else
    match w.pop with
    | none => (none, w, entries)
    | some (oldest, w') => (some oldest, w', entries.erase oldest)

def store (height : Nat) (e : Entry) (w : Window) (entries : Entries) (c : Cache) :
    Except CacheError AddOutcome × Cache :=
  let (evicted, w', entries') := evict c.capacity w.push (entries.insert height e)
  (.ok (.stored evicted), { c with window := some w', entries := entries' })

def add (height : Nat) (b : CompactBlock) (c : Cache) :
    Except CacheError AddOutcome × Cache :=
  match c.codec.encode b with
  | .error err => (.error (.encoding height err), c)
  | .ok data =>
      match makeRoom height (c.window.getD (Window.primed height)) c.entries with
      | .error err => (.error err, c)
      | .ok (w, entries) =>
          if fitsAbove height b entries then store height ⟨data, b.hash⟩ w entries c
          else (.ok .reorgDetected, { c with window := some w, entries := entries })

def addAll (bs : List (Nat × CompactBlock)) (c : Cache) : Cache :=
  bs.foldl (fun c p => (c.add p.1 p.2).2) c

end Cache

def Window.matchesKeys {α : Type} (w : Window) (m : Std.ExtTreeMap Nat α) : Bool :=
  m.size == w.length && m.keys.all fun h => decide (h ∈ w)

end LightServer
