import ClusterClient.Http.Path
import ClusterClient.Service.Operation
import ClusterClient.Settings

/-!
# Rosters

The nodes of a cluster in a fixed order, and the tenant for whom they are asked. A router keeps a
roster and the place in it of the node that it takes for the leader.

* `Roster.build`: the rules that endpoints and tenant must keep;
* `Roster.ofSettings`: a roster by settings, once there is an HTTP client to send requests with;
* `Roster.request`: the request that all attempts of a call send;
* `Router`: a roster with a belief about the leader, which only moves on from the node that has
  refused.
-/

namespace ClusterClient

def tenantHeader : String := "x-tenant-id"

/-- The header that names the type of the body. -/
def contentTypeHeader : String := "content-type"

def jsonType : String := "application/json"

theorem toLower_tenantHeader : tenantHeader.toLower = tenantHeader := by
  rw [toLower_eq]
  decide

theorem toLower_contentTypeHeader : contentTypeHeader.toLower = contentTypeHeader := by
  rw [toLower_eq]
  decide

/-- The nodes of a cluster in the order in which they are tried, and the tenant. -/
structure Roster where
  endpoints : List String
  tenant : String
  deriving DecidableEq, Repr

/-- What asking the system for an HTTP client with a time limit gives: a client, or the reason why
there is none. -/
abbrev HttpSystem := Duration → Except String Unit

/-- Whether a byte may stand in a header value: a tab, or no control character. -/
def isSendable (b : UInt8) : Bool :=
  b = 9 || (32 ≤ b.toNat && b.toNat ≠ 127)

namespace Roster

/-- A roster of valid endpoints, for a tenant that can be sent as a header. -/
def build (endpoints : List String) (tenant : String) : Except Misconfiguration Roster :=
  match checkEndpoints endpoints with
  | .error e => .error e
  | .ok () =>
    if tenant.isEmpty then .error .noTenant
    else if (Utf8.encode tenant).all isSendable then .ok ⟨endpoints, tenant⟩
    else .error (.unsendableTenant tenant)

/-- A roster by settings. They must keep their own rules first, and then the system must have an
HTTP client for their time limit. -/
def ofSettings (http : HttpSystem) (s : Settings) : Except Obstacle Roster :=
  match s.check with
  | .error m => .error (.misconfigured m)
  | .ok () =>
    match http s.timeout with
    | .error reason => .error (.noHttpClient reason)
    | .ok () => (build s.endpoints s.tenant).mapError .misconfigured

def size (r : Roster) : Nat :=
  r.endpoints.length

/-- How many attempts one call may make: one for each node, and one more. -/
def budget (r : Roster) : Nat :=
  r.size + 1

def endpoint (r : Roster) (place : Nat) : String :=
  r.endpoints.getD place ""

/-- The place after a place, the first one after the last. -/
def next (r : Roster) (place : Nat) : Nat :=
  (place + 1) % r.size

/-- The caller's header fields with those that the router sets, whatever the caller said. -/
def headers (r : Roster) (hs : Headers) : Headers :=
  (hs.set tenantHeader r.tenant).set contentTypeHeader jsonType

/-- The request that every attempt of a call sends. -/
def request (r : Roster) (d : Draft) : Request :=
  ⟨d.method, absolutePath d.path, r.headers d.headers, d.body⟩

end Roster

/-- A roster, and the place of the node that is taken for the leader. -/
structure Router where
  roster : Roster
  lead : Nat := 0
  deriving DecidableEq, Repr

namespace Router

def leadEndpoint (r : Router) : String :=
  r.roster.endpoint r.lead

/-- Moves on from a place, unless somebody else already has. -/
def leave (r : Router) (place : Nat) : Router :=
  if r.lead = place then { r with lead := r.roster.next place } else r

def describe (r : Router) : String :=
  "ClusterRouter \x7b endpoints: [" ++ String.intercalate ", " (r.roster.endpoints.map quoted) ++
    "], tenant_id: " ++ quoted r.roster.tenant ++ ", leader: " ++ toString r.lead ++ ", .. \x7d"

end Router

end ClusterClient
