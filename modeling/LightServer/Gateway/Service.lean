import LightServer.Gateway.Routes

/-!
# Serving

The gateway takes its address and then answers requests one after the other, until it is
told to stop. An address that is taken already is an error, and no request is answered.
-/

namespace LightServer.Gateway

variable {ν : Type}

def bindAddress (taken : Bool) (c : Config) : Except SetupError Unit :=
  if taken then
    .error (.bind (c.address.display ++ ": Address already in use (os error 98)"))
  else .ok ()

def respondAll (u : Setup ν) : List Http.Request → Backend ν → List Http.Response × Backend ν
  | [], s => ([], s)
  | r :: rs, s =>
      let (answer, s) := respond u r s
      let (answers, s) := respondAll u rs s
      (answer :: answers, s)

def serve (u : Setup ν) (bound : Except SetupError Unit) (rs : List Http.Request)
    (s : Backend ν) : List Http.Response × Backend ν :=
  match bound with
  | .ok () => respondAll u rs s
  | .error _ => ([], s)

end LightServer.Gateway
