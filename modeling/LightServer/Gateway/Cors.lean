import LightServer.Gateway.Config
import LightServer.Http.Message

/-!
# Requests from other origins

A browser asks whether a page of one origin may read what another origin answers. The
answer is given in headers, and it does not depend on what is asked for. With the
checks switched off every origin is named back to itself, as is everything else that a
browser asks about beforehand.
-/

namespace LightServer.Gateway.Cors

open LightServer.Http

/-- The headers of a request on which every answer depends. -/
def vary : String × String :=
  ("vary", "origin, access-control-request-method, access-control-request-headers")

def echo (name asked : String) (r : Request) : Headers :=
  match Headers.get? asked r.headers with
  | none => []
  | some v => [(name, v)]

def knownOrigins (c : CorsConfig) : List String := c.allowedOrigins.filter isHeaderValue

def allowedOrigin (c : CorsConfig) (r : Request) : Headers :=
  if c.allowedOrigins.contains "*" then [("access-control-allow-origin", "*")]
  else
    match Headers.get? "origin" r.headers with
    | none => []
    | some o =>
        if (knownOrigins c).contains o then [("access-control-allow-origin", o)] else []

def common (c : CorsConfig) (r : Request) : Headers :=
  if c.enabled then vary :: allowedOrigin c r
  else
    vary :: ("access-control-allow-credentials", "true") ::
      echo "access-control-allow-origin" "origin" r

def preflight (c : CorsConfig) (r : Request) : Headers :=
  common c r ++
    if c.enabled then
      [("access-control-allow-methods", "GET,POST,OPTIONS"),
        ("access-control-allow-headers", "content-type"),
        ("access-control-max-age", Text.decimal c.maxAge)]
    else
      echo "access-control-allow-methods" "access-control-request-method" r ++
        echo "access-control-allow-headers" "access-control-request-headers" r

end LightServer.Gateway.Cors
