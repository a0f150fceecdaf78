import Schematic.Http.Message
import Schematic.Text.Blank

/-!
# Calls from other origins

A browser asks before it calls a service from another origin, and reads in the headers of a response
whether it may use it. All methods and headers are allowed, and credentials too; which origins are
is a setting.
-/

namespace Schematic.Http

/-- The origins of a setting, which lists them between commas; without one, any origin is
allowed. -/
def allowedOrigins (setting : Option Text) : List Text :=
  let pieces := (Text.splitAll (.char ',') (setting.getD "*")).map Text.trim
  match pieces.filter (!·.isEmpty) with
  | [] => ["*"]
  | origins => origins

namespace Cors

/-- The methods that a browser may ask for. -/
def methods : List Text := ["DELETE", "GET", "HEAD", "OPTIONS", "PATCH", "POST", "PUT"]

/-- Every origin is allowed. -/
def allowsAll (origins : List Text) : Bool := origins.contains "*"

def allows (origins : List Text) (origin : Text) : Bool :=
  allowsAll origins || origins.contains origin

/-- The header that names the allowed origin. -/
def originHeader (origin : Text) : Text × Text := ("access-control-allow-origin", origin)

def credentialsHeader : Text × Text := ("access-control-allow-credentials", "true")

/-- The answer to a browser that asks before a call. -/
def preflight (origins : List Text) (r : Request) (origin method : Text) : Response :=
  let originFault : List Text := if allows origins origin then [] else ["origin"]
  let methodFault : List Text := if methods.contains method then [] else ["method"]
  let allowed : List (Text × Text) := if allows origins origin then [originHeader origin] else []
  let requested : List (Text × Text) :=
    match r.header? "access-control-request-headers" with
    | some names => [("access-control-allow-headers", names)]
    | none => []
  let fixed : List (Text × Text) :=
    [("access-control-allow-methods", Text.join ", " methods), ("access-control-max-age", "600"),
      credentialsHeader]
  let headers := fixed ++ allowed ++ requested
  match originFault ++ methodFault with
  | [] => { status := 200, headers, content := .text "OK" }
  | faults =>
    { status := 400, headers, content := .text ("Disallowed CORS " ++ Text.join ", " faults) }

/-- The headers of a response to a call from an origin. With a cookie, the origin has to be
named. -/
def responseHeaders (origins : List Text) (r : Request) (origin : Text) : List (Text × Text) :=
  let named : List (Text × Text) :=
    if allowsAll origins then
      [originHeader (if (r.header? "cookie").isSome then origin else "*")]
    else if origins.contains origin then [originHeader origin]
    else []
  credentialsHeader :: named

/-- The response to a request, of which `respond` gives the part that does not depend on the
origin. -/
def around (origins : List Text) (respond : Request → Option Response) (r : Request) :
    Option Response :=
  match r.header? "origin" with
  | none => respond r
  | some origin =>
    match r.header? "access-control-request-method" with
    | some method =>
      if r.method = Text.ofString "OPTIONS" then some (preflight origins r origin method)
      else withHeaders origin
    | none => withHeaders origin
where
  /-- The response with the headers for an origin. -/
  withHeaders (origin : Text) : Option Response :=
    (respond r).map fun response =>
      { response with headers := response.headers ++ responseHeaders origins r origin }

end Cors

end Schematic.Http
