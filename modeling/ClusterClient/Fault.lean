import ClusterClient.Http.Message

/-!
# Faults

Everything that can go wrong with a client, by its cause, and the wording of each.

* `Fault`: the faults of constructing a client and of its calls;
* `Misconfiguration`: what is wrong with the settings of a client;
* `Obstacle`: what keeps settings from making a client.
-/

namespace ClusterClient

/-- A fault of a call or of the construction of a client. -/
inductive Fault where
  /-- There is no HTTP client to send requests with. -/
  | httpClient (reason : String)
  /-- An attempt failed in a way that trying another node does not mend. -/
  | transport (failure : Failure)
  /-- The cluster answered with a status other than success. -/
  | api (status : Nat) (detail : String)
  /-- Every attempt that was allowed met a node that did not serve it. -/
  | clusterUnreachable (attempts endpoints : Nat)
  /-- The caller gave up after a number of completed attempts. -/
  | cancelled (attempts : Nat)
  /-- A body could not be decoded. -/
  | decoding (problem : Json.Problem)
  | invalidUrl (detail : String)
  | settings (detail : String)
  deriving DecidableEq, Repr

namespace Fault

/-- The wording of a fault. A malformed body has none that is fixed. -/
def message : Fault → String
  | .httpClient reason => "HTTP client error: " ++ reason
  | .transport failure => "Transport error: " ++ failure.message
  | .api status detail => "API error (status " ++ toString status ++ "): " ++ detail
  | .clusterUnreachable attempts endpoints =>
    "All " ++ toString endpoints ++ " nodes in the cluster are unreachable or failed after " ++
      toString attempts ++ " attempts"
  | .cancelled attempts => "Operation cancelled after " ++ toString attempts ++ " attempts"
  | .decoding .malformed => "JSON error"
  | .decoding (.data cause) => "JSON error: " ++ cause.message
  | .invalidUrl detail => "Invalid URL: " ++ detail
  | .settings detail => "Configuration error: " ++ detail

/-- Whether the fault is that of an exhausted cluster. -/
def isClusterUnreachable : Fault → Bool
  | .clusterUnreachable _ _ => true
  | _ => false

end Fault

/-- What is wrong with the settings of a client. -/
inductive Misconfiguration where
  | noEndpoint
  | invalidEndpoint (endpoint : String)
  | noTenant
  | noTimeout
  /-- The tenant cannot be sent as a header value. -/
  | unsendableTenant (tenant : String)
  deriving DecidableEq, Repr

/-- The fault of constructing a client with such settings. -/
def Misconfiguration.fault : Misconfiguration → Fault
  | .noEndpoint => .settings "at least one endpoint is required"
  | .invalidEndpoint endpoint =>
    .invalidUrl ("URL must start with http:// or https://, got: " ++ endpoint)
  | .noTenant => .settings "tenant_id is required"
  | .noTimeout => .settings "timeout_ms must be > 0"
  | .unsendableTenant tenant =>
    .settings ("tenant_id is not a valid header value: " ++ quoted tenant)

/-- What keeps settings from making a client: a rule that they break, or the system, which gives no
HTTP client. -/
inductive Obstacle where
  | misconfigured (m : Misconfiguration)
  | noHttpClient (reason : String)
  deriving DecidableEq, Repr

/-- The fault of constructing a client against such an obstacle. -/
def Obstacle.fault : Obstacle → Fault
  | .misconfigured m => m.fault
  | .noHttpClient reason => .httpClient reason

end ClusterClient
