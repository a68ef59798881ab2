import LightServer.Json.Decode

/-!
# Lengths of time

A length of time counts nanoseconds. In JSON it is a record of whole seconds and
the nanoseconds beyond them, in which whole seconds among the nanoseconds are
carried over.
-/

namespace LightServer

structure Duration where
  nanoseconds : Nat
  deriving DecidableEq, Repr, Inhabited

namespace Duration

def second : Nat := 1000000000

def ofSeconds (n : Nat) : Duration := ⟨n * second⟩

def ofMillis (n : Nat) : Duration := ⟨n * 1000000⟩

def toMillis (d : Duration) : Nat := d.nanoseconds / 1000000

/-- The milliseconds after which the time has passed. -/
def ceilMillis (d : Duration) : Nat := (d.nanoseconds + 999999) / 1000000

def IsZero (d : Duration) : Prop := d.nanoseconds = 0

instance (d : Duration) : Decidable d.IsZero :=
  inferInstanceAs (Decidable (d.nanoseconds = 0))

def toJson (d : Duration) : Json :=
  Json.ofMembers [("secs", .nat (d.nanoseconds / second)),
    ("nanos", .nat (d.nanoseconds % second))]

/-- The time for seconds and nanoseconds, if its seconds fit into 64 bits. -/
def ofParts (secs nanos : Nat) : Except Json.DecodeError Duration :=
  if secs + nanos / second ≤ Text.maxWord64 then .ok ⟨secs * second + nanos⟩
  else .error (.other "overflow deserializing Duration")

def fields : Json.Fields Duration :=
  ((Prod.mk <$> Json.Fields.required "secs" Json.Decoder.word64 <*>
    Json.Fields.required "nanos" Json.Decoder.word32).refusingOthers).andThen
      fun (secs, nanos) => ofParts secs nanos

/-- The time from its record, whose name does not tell the number of its fields. -/
def ofJson : Json.Decoder Duration
  | .array xs => fields.ofArray "struct Duration" xs
  | .object ms => fields.ofObject ms
  | v => .error (.invalidType v "struct Duration")

end Duration

end LightServer
