import LightServer.Bytes.Utf8

/-!
# Requests and responses

A request names a method and a target and carries headers and a body of bytes. A
response has a status, headers and a body, which is always text here. Names of
headers are compared without regard to case.
-/

namespace LightServer.Http

abbrev Headers := List (String × String)

/-- The value of the first header with a name, which is in lower case. -/
def Headers.get? (name : String) (hs : Headers) : Option String :=
  (hs.find? fun h => h.1.toLower == name).map Prod.snd

structure Request where
  method : String
  target : String
  headers : Headers
  body : Bytes
  deriving DecidableEq, Repr

structure Response where
  status : Nat
  headers : Headers
  body : String
  deriving DecidableEq, Repr

namespace Response

def empty (status : Nat) : Response := ⟨status, [], ""⟩

def typed (status : Nat) (contentType body : String) : Response :=
  ⟨status, [("content-type", contentType)], body⟩

def words (status : Nat) (body : String) : Response :=
  typed status "text/plain; charset=utf-8" body

def withoutBody (r : Response) : Response := { r with body := "" }

def withHeaders (hs : Headers) (r : Response) : Response := { r with headers := r.headers ++ hs }

end Response

/-- The text can stand in a header: it has no control characters other than tabs. -/
def isHeaderValue (s : String) : Bool :=
  s.toList.all fun c => c = '\t' || (0x20 ≤ c.toNat && c.toNat ≠ 0x7F)

end LightServer.Http
