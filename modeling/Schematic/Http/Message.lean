import Schematic.Component.Problem
import Schematic.Json

/-!
# Messages

Requests to the service and its responses. The names of headers are in lower case.
-/

namespace Schematic.Http

/-- A request. The path and the query are decoded. -/
structure Request where
  method : Text
  path : Text
  query : List (Text × Text) := []
  headers : List (Text × Text) := []
  body : Text := []

/-- What a response holds. -/
inductive Content where
  | json (j : Json)
  | text (t : Text)

/-- A response. -/
structure Response where
  status : Nat
  headers : List (Text × Text) := []
  content : Content

def Request.header? (r : Request) (name : Text) : Option Text :=
  (r.headers.find? fun h => h.1 == name).map (·.2)

/-- The last value that the query of a request has for a name. -/
def Request.parameter? (r : Request) (name : Text) : Option Text :=
  ((r.query.filter fun q => q.1 == name).getLast?).map (·.2)

namespace Response

def header? (r : Response) (name : Text) : Option Text :=
  (r.headers.find? fun h => h.1 == name).map (·.2)

/-- A response that holds data. -/
def ofJson (status : Nat) (j : Json) : Response := { status, content := .json j }

/-- A response that says what is wrong. -/
def detail (status : Nat) (message : Text) : Response :=
  ofJson status (.object [("detail", .text message)])

/-- A response to a method that a path does not know. -/
def methodNotAllowed (allowed : Text) : Response :=
  { detail 405 "Method Not Allowed" with headers := [("allow", allowed)] }

def redirect (path : Text) : Response :=
  { status := 307, headers := [("location", path)], content := .text [] }

/-- A response to a request that the service fails on. -/
def serverError : Response := { status := 500, content := .text "Internal Server Error" }

end Response

/-! ### Problems of requests -/

/-- A problem together with the part of the request that has it. -/
structure Complaint where
  problem : Problem
  input : Json

def stepJson : PathStep → Json
  | .name t => .text t
  | .index i => .int i

def Complaint.toJson (c : Complaint) : Json := .object [
  ("type", .text c.problem.cause.code), ("loc", .array (c.problem.path.map stepJson)),
  ("msg", .text c.problem.cause.message), ("input", c.input)]

/-- A response that lists what is wrong with a request. -/
def Response.unprocessable (complaints : List Complaint) : Response :=
  .ofJson 422 (.object [("detail", .array (complaints.map Complaint.toJson))])

/-! ### Data that can be sent -/

mutual

/-- The data can be sent: all its texts have bytes and all its numbers are finite. -/
def isSendable : Json → Bool
  | .float x => x.isFinite
  | .text t => t.chars?.isSome
  | .array items => areSendable items
  | .object entries => areEntriesSendable entries
  | .null | .bool _ | .int _ => true

/-- All items can be sent. -/
def areSendable : List Json → Bool
  | [] => true
  | j :: js => isSendable j && areSendable js

/-- All entries can be sent. -/
def areEntriesSendable : List (Text × Json) → Bool
  | [] => true
  | (k, j) :: es => k.chars?.isSome && isSendable j && areEntriesSendable es

end

/-- The response, if it can be sent. -/
def Response.sendable? (r : Response) : Option Response :=
  match r.content with
  | .text _ => some r
  | .json j => if isSendable j then some r else none

end Schematic.Http
