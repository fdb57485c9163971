import ClusterClient.Http.Header
import ClusterClient.Json.Decoder
import ClusterClient.Json.Writer

/-!
# Requests and replies

What goes to a node and what comes back. The outcome of sending a request is a reply or a
failure to get one; only some failures mean that the node was never reached.
-/

namespace ClusterClient

open Json

/-- The method of a request. -/
inductive Method where
  | get
  | post
  | delete
  deriving DecidableEq, Repr

def Method.name : Method → String
  | .get => "GET"
  | .post => "POST"
  | .delete => "DELETE"

/-- A request, whichever node it goes to. -/
structure Request where
  method : Method
  path : String
  headers : Headers
  body : Option Value

namespace Request

/-- The bytes of the body that is sent; without a body there are none. -/
def bodyBytes (r : Request) : List UInt8 :=
  match r.body with
  | some v => v.toBytes
  | none => []

end Request

/-- A complete reply of a node. -/
structure Reply where
  status : Nat
  body : List UInt8
  deriving DecidableEq, Repr

namespace Reply

def ofValue (status : Nat) (v : Value) : Reply :=
  ⟨status, v.toBytes⟩

def isSuccess (r : Reply) : Bool :=
  200 ≤ r.status && r.status < 300

/-- The body as text, with replacement characters for what is no text. -/
def text (r : Reply) : String :=
  Utf8.decodeLossy r.body

def value (r : Reply) : Except Problem Value :=
  decode Decoder.ofValue r.body

end Reply

/-- A failure to get a reply. -/
structure Failure where
  /-- Whether the node could not be reached at all. -/
  unreachable : Bool
  /-- The node that was addressed. -/
  endpoint : String
  reason : String
  deriving DecidableEq, Repr

def Failure.message (f : Failure) : String :=
  if f.unreachable then "node " ++ f.endpoint ++ " is unreachable: " ++ f.reason
  else "request to " ++ f.endpoint ++ " failed: " ++ f.reason

/-- What became of one attempt. -/
abbrev Outcome := Except Failure Reply

end ClusterClient
