import ClusterClient.Fault
import ClusterClient.Json.Record

/-!
# Settings

What a client is made from: the nodes to try, the tenant and the time limit of an attempt.

* `Settings`: the settings, their defaults and their decoder;
* `Settings.check`: the rules, in the order in which they are reported;
* `Settings.draft` with `addEndpoint`, `setTimeout` and `build`: settings put together step by
  step;
* `Settings.assemble`: the settings that a list of such steps gives.
-/

namespace ClusterClient

open Json

/-- A length of time: seconds, and the nanoseconds after them. -/
structure Duration where
  seconds : UInt64
  /-- Below 1 000 000 000. -/
  nanos : UInt32
  deriving DecidableEq, Repr

namespace Duration

/-- The whole milliseconds of a length of time. -/
def millis (d : Duration) : Nat :=
  (d.seconds.toNat * 1000000000 + d.nanos.toNat) / 1000000

/-- A number of milliseconds as a length of time. -/
def ofMillis (ms : UInt64) : Duration :=
  ⟨ms / 1000, (ms.toNat % 1000 * 1000000).toUInt32⟩

end Duration

/-- The settings of a client. -/
structure Settings where
  /-- The nodes, in the order in which they are tried. -/
  endpoints : List String
  tenant : String
  /-- The time limit of one attempt. -/
  timeoutMillis : UInt64
  deriving DecidableEq, Repr

/-- Whether a text begins like an HTTP or HTTPS URL. -/
def isWebUrl (endpoint : String) : Bool :=
  "http://".toList.isPrefixOf endpoint.toList || "https://".toList.isPrefixOf endpoint.toList

/-- Checks the endpoints of a client: there is one, and the first that is no URL is reported. -/
def checkEndpoints (endpoints : List String) : Except Misconfiguration Unit :=
  if endpoints.isEmpty then .error .noEndpoint
  else
    match endpoints.find? (!isWebUrl ·) with
    | some endpoint => .error (.invalidEndpoint endpoint)
    | none => .ok ()

namespace Settings

/-- The settings where nothing else is said. -/
def standard : Settings :=
  ⟨["http://localhost:3000"], "default", 30000⟩

/-- Settings for given endpoints and tenant. -/
def of (endpoints : List String) (tenant : String) : Settings :=
  { standard with endpoints, tenant }

def timeout (s : Settings) : Duration :=
  .ofMillis s.timeoutMillis

/-- The first rule that the settings break, if any. -/
def check (s : Settings) : Except Misconfiguration Unit :=
  match checkEndpoints s.endpoints with
  | .error e => .error e
  | .ok () =>
    if s.tenant.isEmpty then .error .noTenant
    else if s.timeoutMillis = 0 then .error .noTimeout
    else .ok ()

/-! ## Step by step -/

/-- Standard settings without an endpoint, to be completed. -/
def draft : Settings :=
  { standard with endpoints := [] }

def addEndpoint (endpoint : String) (s : Settings) : Settings :=
  { s with endpoints := s.endpoints ++ [endpoint] }

/-- The settings with a time limit, cut to whole milliseconds and to 64 bits of them. -/
def setTimeout (d : Duration) (s : Settings) : Settings :=
  { s with timeoutMillis := d.millis.toUInt64 }

/-- The completed settings, if they keep the rules. -/
def build (s : Settings) : Except Misconfiguration Settings :=
  s.check.map fun () => s

/-- A step in putting settings together. -/
inductive Adjustment where
  /-- Adds an endpoint. -/
  | endpoint (endpoint : String)
  /-- Replaces all endpoints. -/
  | endpoints (endpoints : List String)
  | tenant (tenant : String)
  | timeout (d : Duration)
  deriving DecidableEq, Repr

def adjust (s : Settings) : Adjustment → Settings
  | .endpoint endpoint => s.addEndpoint endpoint
  | .endpoints endpoints => { s with endpoints }
  | .tenant tenant => { s with tenant }
  | .timeout d => s.setTimeout d

/-- The settings after steps, from the draft on, before they are checked. -/
def adjusted (steps : List Adjustment) : Settings :=
  steps.foldl adjust draft

/-- The settings that steps give, if they keep the rules. -/
def assemble (steps : List Adjustment) : Except Misconfiguration Settings :=
  (adjusted steps).build

/-! ## As values -/

def toValue (s : Settings) : Value :=
  .ofMembers
    [("endpoints", .array (s.endpoints.map .string)),
      ("tenant_id", .string s.tenant),
      ("timeout_ms", .ofNat s.timeoutMillis.toNat)]

/-- The fields of settings; what is left out has its standard. -/
def record : Record Settings where
  name := "ClientConfig"
  blank := standard
  fields :=
    [.defaulted "endpoints" Decoder.ofString.listOf fun es s => { s with endpoints := es },
      .defaulted "tenant_id" Decoder.ofString fun t s => { s with tenant := t },
      .defaulted "timeout_ms" (Decoder.ofUInt64 "u64") fun n s => { s with timeoutMillis := n }]

def decoder : Decoder Settings := record.decoder

end Settings

end ClusterClient
