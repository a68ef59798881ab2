import LightServer.Gateway.Cors
import LightServer.Gateway.Stream
import LightServer.Http.Target

/-!
# Routes of the gateway

Requests are posted to `/` for methods with one response and to `/stream` for those with
many. Besides there are `/health`, `/metrics`, and `/params/` for the files of proving
parameters, which are found elsewhere. What is no route is answered with status 404, and
a route that is asked with another method with status 405. Requests in which a browser
asks beforehand are answered everywhere.
-/

namespace LightServer.Gateway

open LightServer.Http

variable {ν : Type}

inductive Route where
  | unary
  | streaming
  | health
  | metrics
  | params (file : List Char)
  deriving DecidableEq, Repr

namespace Route

def ofFile? (file : List Char) : Option Route :=
  if file.isEmpty || file.contains '/' then none else some (.params file)

def filesPath : List Char := "/params/".toList

def ofPath? (path : List Char) : Option Route :=
  match String.ofList path with
  | "/" => some .unary
  | "/stream" => some .streaming
  | "/health" => some .health
  | "/metrics" => some .metrics
  | _ =>
      if filesPath.isPrefixOf path then ofFile? (path.drop filesPath.length) else none

def methods : Route → List String
  | unary | streaming => ["POST"]
  | health | metrics | params _ => ["GET", "HEAD"]

def Allows (r : Route) (method : String) : Prop := method ∈ r.methods

instance (r : Route) (method : String) : Decidable (r.Allows method) :=
  inferInstanceAs (Decidable (method ∈ r.methods))

end Route

def jsonResponse (status : Nat) (v : Json) : Response :=
  .typed status "application/json" v.compact

def healthResponse : Response :=
  jsonResponse 200 (Json.ofMembers [("status", .string "healthy"),
    ("service", .string "wallet-gateway"), ("version", .string version)])

def metricsResponse (m : Metrics) : Response :=
  .typed 200 "text/plain; version=0.0.4" (String.join (m.exposition.map (· ++ "\n")))

def parameterFiles : List String :=
  ["sapling-spend.params", "sapling-output.params", "sprout-groth16.params"]

def fileLocation (c : Config) (file : String) : String :=
  String.ofList ((c.paramsBaseUrl.toList.reverse.dropWhile (· = '/')).reverse) ++ "/" ++ file

def redirect (location : String) : Response :=
  if isHeaderValue location then ⟨301, [("location", location)], ""⟩
  else .words 301 "failed to parse header value"

def fileResponse (c : Config) (file : List Char) (s : Backend ν) : Response × Backend ν :=
  match Utf8.decode (percentDecode (utf8Chars file)) with
  | .error _ => (.words 400 "Invalid URL: Invalid UTF-8 in \x60file\x60", s)
  | .ok name =>
      if parameterFiles.contains name then
        (redirect (fileLocation c name), s.record (.paramsDownloaded name))
      else (.empty 404, s)

def bodyText (c : Config) (r : Request) : Except Response String :=
  if c.maxRequestSize < r.body.length then
    .error (.words 413 "Failed to buffer the request body: length limit exceeded")
  else
    match Utf8.decode r.body with
    | .ok text => .ok text
    | .error e => .error (.words 400 ("Request body didn't contain valid UTF-8: " ++ e.message))

def unaryResponse (u : Setup ν) (text : String) (s : Backend ν) : Response × Backend ν :=
  let ((status, v), s) := answerText u text s
  (jsonResponse status v, s)

def streamResponse (u : Setup ν) (text : String) (s : Backend ν) : Response × Backend ν :=
  let (rs, s) := streamText u text s
  (.typed 200 "application/x-ndjson" (lines rs), s)

def routeResponse (u : Setup ν) (route : Route) (r : Request) (s : Backend ν) :
    Response × Backend ν :=
  match route with
  | .health => (healthResponse, s)
  | .metrics => (metricsResponse s.metrics, s)
  | .params file => fileResponse u.config file s
  | .unary =>
      match bodyText u.config r with
      | .error refused => (refused, s)
      | .ok text => unaryResponse u text s
  | .streaming =>
      match bodyText u.config r with
      | .error refused => (refused, s)
      | .ok text => streamResponse u text s

def allowHeader (route : Option Route) : Headers :=
  match route with
  | none => []
  | some r => [("allow", ",".intercalate r.methods)]

def respondOnRoute (u : Setup ν) (route : Option Route) (r : Request) (s : Backend ν) :
    Response × Backend ν :=
  match route with
  | none => (.empty 404, s)
  | some route =>
      if route.Allows r.method then
        let (answer, s) := routeResponse u route r s
        (if r.method = "HEAD" then answer.withoutBody else answer, s)
      else ((Response.empty 405).withHeaders (allowHeader (some route)), s)

def respond (u : Setup ν) (r : Request) (s : Backend ν) : Response × Backend ν :=
  let route := Route.ofPath? (path r.target)
  if r.method = "OPTIONS" then
    ((Response.empty 200).withHeaders (Cors.preflight u.config.cors r ++ allowHeader route), s)
  else
    let (answer, s) := respondOnRoute u route r s
    (answer.withHeaders (Cors.common u.config.cors r), s)

end LightServer.Gateway
