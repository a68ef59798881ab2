import LightServer.Number.Binary64
import LightServer.Bytes.Octets

/-!
# JSON values

The members of an object are listed in the order of their keys, each key once.
Whole numbers and numbers with a fraction are kept apart, so `1` and `1.0` are
different values and both print as they were read.
-/

namespace LightServer

inductive Json where
  | null
  | bool (b : Bool)
  | integer (n : Int)
  | float (x : Binary64)
  | string (s : String)
  | array (xs : List Json)
  | object (ms : List (String × Json))
  deriving Inhabited

namespace Json

/-- The members of an object with one member put in its place. It replaces a member
with the same key. -/
def insertMember (k : String) (v : Json) : List (String × Json) → List (String × Json)
  | [] => [(k, v)]
  | (k', v') :: ms =>
      if k < k' then (k, v) :: (k', v') :: ms
      else if k = k' then (k, v) :: ms
      else (k', v') :: insertMember k v ms

/-- The object with the given members, of which the last one with a key counts. -/
def ofMembers (ms : List (String × Json)) : Json :=
  object (ms.foldl (fun acc m => insertMember m.1 m.2 acc) [])

def lookup (k : String) : List (String × Json) → Option Json
  | [] => none
  | (k', v) :: ms => if k = k' then some v else lookup k ms

def get? (k : String) : Json → Option Json
  | object ms => lookup k ms
  | _ => none

def nat (n : Nat) : Json := integer n

def orNull {α : Type} (f : α → Json) : Option α → Json
  | none => null
  | some x => f x

def listOf {α : Type} (f : α → Json) (xs : List α) : Json := array (xs.map f)

theorem lookup_insertMember_self (k : String) (v : Json) (ms : List (String × Json)) :
    lookup k (insertMember k v ms) = some v := by
  induction ms with
  | nil => simp [insertMember, lookup]
  | cons m ms ih =>
      obtain ⟨k', v'⟩ := m
      unfold insertMember
      split
      · simp [lookup]
      · split
        · simp [lookup]
        · rename_i hk
          simp [lookup, hk, ih]

end Json

end LightServer
