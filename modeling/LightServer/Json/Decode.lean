import LightServer.Json.Basic
import LightServer.Number.Shortest
import LightServer.Text.Integer
import LightServer.Text.Quoted

/-!
# Typed values from JSON

A decoder turns a JSON value into a value of some type, or says what is wrong with
it. A record is an object, or an array with its fields in order. The members of an
object are decoded in the order of their keys, unknown ones are passed over, and
only when all members are right the fields are looked at in their own order for one
that is missing. In an array the fields are decoded in their own order, and what is
left over is reported last.
-/

namespace LightServer.Json

inductive DecodeError where
  | invalidType (found : Json) (wanted : String)
  | invalidValue (found : Json) (wanted : String)
  | invalidLength (found : Nat) (wanted : String)
  | missingField (name : String)
  | unknownField (name : String) (wanted : List String)
  | other (text : String)

def found : Json → String
  | null => "null"
  | bool b => "boolean `" ++ (if b then "true" else "false") ++ "`"
  | integer n => "integer `" ++ Text.decimalInt n ++ "`"
  | float x => "floating point `" ++ Shortest.json x ++ "`"
  | string s => "string " ++ Text.quoteString s
  | array _ => "sequence"
  | object _ => "map"

def alternatives (names : List String) : String :=
  " or ".intercalate (names.map fun s => "`" ++ s ++ "`")

def DecodeError.message : DecodeError → String
  | invalidType v wanted => "invalid type: " ++ found v ++ ", expected " ++ wanted
  | invalidValue v wanted => "invalid value: " ++ found v ++ ", expected " ++ wanted
  | invalidLength n wanted =>
      "invalid length " ++ Text.decimal n ++ ", expected " ++ wanted
  | missingField name => "missing field `" ++ name ++ "`"
  | unknownField name wanted =>
      "unknown field `" ++ name ++ "`, expected " ++ alternatives wanted
  | other text => text

abbrev Decoder (α : Type) := Json → Except DecodeError α

namespace Decoder

def any : Decoder Json := fun v => .ok v

def integerIn (low high : Int) (wanted : String) : Decoder Int
  | v@(.integer n) =>
      if low ≤ n ∧ n ≤ high then .ok n else .error (.invalidValue v wanted)
  | v => .error (.invalidType v wanted)

def natUpTo (high : Nat) (wanted : String) : Decoder Nat := fun v =>
  (integerIn 0 high wanted v).map Int.toNat

def word64 : Decoder Nat := natUpTo Text.maxWord64 "u64"

def size : Decoder Nat := natUpTo Text.maxWord64 "usize"

def word32 : Decoder Nat := natUpTo 0xFFFFFFFF "u32"

def word16 : Decoder Nat := natUpTo Text.maxWord16 "u16"

def int64 : Decoder Int := integerIn (-(Text.maxInt64 : Int) - 1) Text.maxInt64 "i64"

def int32 : Decoder Int := integerIn (-0x80000000) 0x7FFFFFFF "i32"

def string : Decoder String
  | .string s => .ok s
  | v => .error (.invalidType v "a string")

def bool : Decoder Bool
  | .bool b => .ok b
  | v => .error (.invalidType v "a boolean")

def list {α : Type} (d : Decoder α) : Decoder (List α)
  | .array xs => xs.mapM d
  | v => .error (.invalidType v "a sequence")

def map {α : Type} (d : Decoder α) : Decoder (List (String × α))
  | .object ms => ms.mapM fun m => (d m.2).map fun x => (m.1, x)
  | v => .error (.invalidType v "a map")

def orNull {α : Type} (d : Decoder α) : Decoder (Option α)
  | .null => .ok none
  | v => (d v).map some

end Decoder

structure Fields (α : Type) where
  names : List String
  /-- What is wrong with the member of an object with this name and value. -/
  fault? : String → Json → Option DecodeError
  /-- The fields from the members of an object. -/
  ofMembers : List (String × Json) → Except DecodeError α
  /-- The fields from the items of an array, with the items that are left. The number
  tells how many fields of the record come before these. -/
  ofItems : String → Nat → List Json → Except DecodeError (α × List Json)

namespace Fields

instance : Functor Fields where
  map f x :=
    { names := x.names
      fault? := x.fault?
      ofMembers := fun ms => (x.ofMembers ms).map f
      ofItems := fun wanted i xs => (x.ofItems wanted i xs).map fun r => (f r.1, r.2) }

instance : Pure Fields where
  pure a :=
    { names := []
      fault? := fun _ _ => none
      ofMembers := fun _ => .ok a
      ofItems := fun _ _ xs => .ok (a, xs) }

instance : Seq Fields where
  seq f x :=
    { names := f.names ++ (x ()).names
      fault? := fun k v => (f.fault? k v).or ((x ()).fault? k v)
      ofMembers := fun ms => do
        let g ← f.ofMembers ms
        return g (← (x ()).ofMembers ms)
      ofItems := fun wanted i xs => do
        let (g, rest) ← f.ofItems wanted i xs
        let (a, rest) ← (x ()).ofItems wanted (i + f.names.length) rest
        return (g a, rest) }

def faultOf {α : Type} (d : Decoder α) (v : Json) : Option DecodeError :=
  match d v with
  | .ok _ => none
  | .error e => some e

/-- A field, with the values that it has when an object or an array lacks it. -/
def field {α : Type} (name : String) (d : Decoder α) (inObject inArray : Option α) :
    Fields α where
  names := [name]
  fault? k v := if k = name then faultOf d v else none
  ofMembers ms :=
    match lookup name ms, inObject with
    | some v, _ => d v
    | none, some a => .ok a
    | none, none => .error (.missingField name)
  ofItems wanted i xs :=
    match xs, inArray with
    | v :: rest, _ => (d v).map fun a => (a, rest)
    | [], some a => .ok (a, [])
    | [], none => .error (.invalidLength i wanted)

def required {α : Type} (name : String) (d : Decoder α) : Fields α := field name d none none

def withDefault {α : Type} (name : String) (d : Decoder α) (a : α) : Fields α :=
  field name d (some a) (some a)

/-- A field that an object may lack and an array may not, and that may be null. -/
def optional {α : Type} (name : String) (d : Decoder α) : Fields (Option α) :=
  field name d.orNull (some none) none

def firstFault? {α : Type} (f : Fields α) (ms : List (String × Json)) : Option DecodeError :=
  ms.findSome? fun m => f.fault? m.1 m.2

/-- The fields from an array, of which nothing may be left over. -/
def ofArray {α : Type} (f : Fields α) (wanted : String) (xs : List Json) :
    Except DecodeError α := do
  let (a, rest) ← f.ofItems wanted 0 xs
  if rest.isEmpty then return a
  else throw (.invalidLength xs.length "fewer elements in array")

def ofObject {α : Type} (f : Fields α) (ms : List (String × Json)) : Except DecodeError α :=
  match f.firstFault? ms with
  | some e => .error e
  | none => f.ofMembers ms

def sized {α : Type} (f : Fields α) (wanted : String) : String :=
  wanted ++ " with " ++ Text.decimal f.names.length ++
    (if f.names.length = 1 then " element" else " elements")

def record {α : Type} (name : String) (f : Fields α) : Decoder α
  | .array xs => f.ofArray (f.sized ("struct " ++ name)) xs
  | .object ms => f.ofObject ms
  | v => .error (.invalidType v ("struct " ++ name))

/-- What becomes of the fields once all of them are there. In an array this is seen to
before the items that are left over. -/
def andThen {α β : Type} (f : Fields α) (next : α → Except DecodeError β) : Fields β where
  names := f.names
  fault? := f.fault?
  ofMembers ms := f.ofMembers ms >>= next
  ofItems wanted i xs := do
    let (a, rest) ← f.ofItems wanted i xs
    return (← next a, rest)

def refusingOthers {α : Type} (f : Fields α) : Fields α where
  names := f.names
  fault? k v := if f.names.contains k then f.fault? k v else some (.unknownField k f.names)
  ofMembers := f.ofMembers
  ofItems := f.ofItems

end Fields

end LightServer.Json
