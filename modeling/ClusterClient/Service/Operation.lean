import ClusterClient.Fault
import ClusterClient.Message.Event
import ClusterClient.Message.Findings
import ClusterClient.Message.Query
import ClusterClient.Text.Percent

/-!
# Operations

What a client can ask of the cluster: each operation has a request and a reading of its reply.
Where the status of a reply reports success its body is decoded, and otherwise it is a fault with
the most telling text that the body holds.

* `Reply.complaint`, `Reply.accept`: what the client makes of a reply;
* `Operation.draft`, `Operation.answer`: the request of an operation and the reading of its reply.
-/

namespace ClusterClient

open Json

namespace Reply

/-- What a reply without success says about itself: its member `error`, else its member
`message`, else the whole body. The body is read as text first, so bytes that are none do not
hide the members. -/
def complaint (r : Reply) : String :=
  let text := r.text
  match decode Decoder.ofValue (Utf8.encode text) with
  | .ok v => ((v.textOf? "error").or (v.textOf? "message")).getD text
  | .error _ => text

/-- The decoded body of a successful reply, or the fault of any other. -/
def accept {α : Type} (d : Decoder α) (r : Reply) : Except Fault α :=
  if r.isSuccess then (decode d r.body).mapError Fault.decoding
  else .error (.api r.status r.complaint)

end Reply

/-- An operation of a client. -/
inductive Operation where
  /-- Stores an event in the client's stream. -/
  | store (e : Event)
  /-- Searches the client's stream. -/
  | search (q : Query)
  /-- Deletes all data of a tenant, of the client's own where none is named. -/
  | erase (tenant : Option String)
  /-- Asks how much is still to be digested. -/
  | backlog

/-- What an operation gives. -/
inductive Answer where
  | receipt (r : Receipt)
  | findings (f : Findings)
  /-- The cluster's acknowledgement, as it came. -/
  | acknowledgement (v : Value)
  | backlog (b : Backlog)
  /-- A reply that nobody has read. -/
  | reply (r : Reply)

/-- The caller's part of a request. -/
structure Draft where
  method : Method
  path : String
  body : Option Value := none
  headers : Headers := []

def streamPath (stream : Uuid) (resource : String) : String :=
  "/v1/streams/" ++ String.ofList stream.text ++ "/" ++ resource

def tenantPath (tenant : String) : String :=
  "/v1/tenants/" ++ String.ofList (percentEncode (Utf8.encode tenant))

def backlogPath : String := "/v1/status/pending"

namespace Operation

/-- The request of an operation, for the stream and the tenant of the client. -/
def draft (stream : Uuid) (tenant : String) : Operation → Draft
  | .store e => ⟨.post, streamPath stream "events", some e.toValue, []⟩
  | .search q => ⟨.post, streamPath stream "retrieve", some q.toValue, []⟩
  | .erase target => ⟨.delete, tenantPath (target.getD tenant), none, []⟩
  | .backlog => ⟨.get, backlogPath, none, []⟩

def answer (r : Reply) : Operation → Except Fault Answer
  | .store _ => (r.accept Receipt.decoder).map .receipt
  | .search _ => (r.accept Findings.decoder).map .findings
  | .erase _ => (r.accept Decoder.ofValue).map .acknowledgement
  | .backlog => (r.accept Backlog.decoder).map .backlog

end Operation

end ClusterClient
