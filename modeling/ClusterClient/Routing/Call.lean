import ClusterClient.Routing.Journal
import ClusterClient.Routing.Roster
import ClusterClient.Routing.Verdict

/-!
# Calls

One call on a router: attempts that follow one another until an outcome is final, the budget is
spent or the caller gives up. `Call.move` is one indivisible piece of that work. Between two
pieces other calls on the same router may run, so a call remembers the place that its attempt was
sent to and never relies on the leader being the same afterwards.

```text
poised k ──send──► inFlight k ──final outcome──────────► ended
   ▲                   │
   └── refusal, k + 1 ─┘        poised (budget + 1) ───► ended: cluster unreachable
```

A call whose token has fired ends before its next attempt, and at once while one is in flight: the
token is looked at before the outcome.
-/

namespace ClusterClient

/-- What a node will answer to an attempt. A failure names the node it was sent to, unless it
names one itself. -/
inductive Response where
  | reply (r : Reply)
  | failure (unreachable : Bool) (endpoint : Option String) (reason : String)
  deriving DecidableEq, Repr

/-- The outcome of an attempt that was sent to a node. -/
def Response.outcome (target : String) : Response → Outcome
  | .reply r => .ok r
  | .failure unreachable endpoint reason => .error ⟨unreachable, endpoint.getD target, reason⟩

/-- The moment of an attempt at which the call's token fires by itself. -/
inductive Trigger where
  /-- When the attempt is sent. -/
  | onSend
  /-- When its outcome is produced, after the token has been looked at. -/
  | onReply
  deriving DecidableEq, Repr

/-- A prepared response to an attempt. -/
structure Planned where
  response : Response
  trigger : Option Trigger := none
  deriving DecidableEq, Repr

/-- Where a call stands. -/
inductive Phase where
  /-- Before an attempt; the first one has number 1. -/
  | poised (attempt : Nat)
  /-- An attempt was sent to a place of the roster; its response may have arrived. -/
  | inFlight (attempt place : Nat) (arrived : Option Planned)
  | ended (result : Except Fault Reply)

/-- Something that happens in a call. -/
inductive Occurrence where
  | sent (place : Nat) (endpoint : String) (request : Request)
  | noted (entry : Entry)
  | finished (result : Except Fault Reply)

/-- A call on a router. -/
structure Call where
  request : Request
  token : Option String := none
  /-- The responses that are ready before they are asked for. -/
  script : List Planned := []
  phase : Phase := .poised 1

/-- What a piece of work does: to the call, to the leader's place, to the token, and to the
outside. -/
structure Move where
  call : Call
  router : Router
  /-- Whether the call's own token fires. -/
  fires : Bool := false
  events : List Occurrence

namespace Call

/-- Whether the call has ended. -/
def isEnded (c : Call) : Bool :=
  match c.phase with
  | .ended _ => true
  | _ => false

/-- The end of a call. -/
def finish (c : Call) (router : Router) (before : List Occurrence) (result : Except Fault Reply) :
    Move :=
  { call := { c with phase := .ended result }, router, events := before ++ [.finished result] }

/-- What is noted about a refusal. -/
def refusal (endpoint : String) : Verdict → List Occurrence
  | .redirect leader => [.noted (.redirected endpoint leader)]
  | .notLeader hint => [.noted (.notLeader endpoint hint)]
  | .unreachable reason => [.noted (.offline endpoint reason)]
  | .success | .other => []

/-- Sends an attempt to the leader. The response that is ready for it, if any, arrives at once. -/
def send (c : Call) (router : Router) (attempt : Nat) : Move :=
  let endpoint := router.leadEndpoint
  { call := { c with
      phase := .inFlight attempt router.lead c.script.head?
      script := c.script.tail }
    router
    fires := (c.script.head?.bind Planned.trigger) = some .onSend
    events :=
      [.noted (.sending attempt router.roster.budget endpoint c.request.method c.request.path),
        .sent router.lead endpoint c.request] }

/-- Takes the response to an attempt: a final outcome ends the call, a refusal leaves the place
and makes the call ready for another attempt. -/
def receive (c : Call) (router : Router) (attempt place : Nat) (p : Planned) : Move :=
  let endpoint := router.roster.endpoint place
  let outcome := p.response.outcome endpoint
  let verdict := Verdict.ofOutcome outcome
  let fires := p.trigger = some .onReply
  if verdict.isRetryable then
    { call := { c with phase := .poised (attempt + 1) }
      router := router.leave place
      fires
      events := refusal endpoint verdict }
  else { c.finish router [] (outcome.mapError Fault.transport) with fires }

/-- One piece of work, given whether the token has fired; `none` when the call has ended or waits
for a response. -/
def move (c : Call) (router : Router) (cancelled : Bool) : Option Move :=
  match c.phase with
  | .poised attempt =>
    if router.roster.budget < attempt then
      let attempts := router.roster.budget
      let endpoints := router.roster.size
      some (c.finish router [.noted (.exhausted attempts endpoints)]
        (.error (.clusterUnreachable attempts endpoints)))
    else if cancelled then some (c.finish router [] (.error (.cancelled (attempt - 1))))
    else some (c.send router attempt)
  | .inFlight attempt place arrived =>
    if cancelled then some (c.finish router [] (.error (.cancelled (attempt - 1))))
    else arrived.map (c.receive router attempt place)
  | .ended _ => none

/-- The call with a response to the attempt in flight; `none` if it waits for none. -/
def deliver? (c : Call) (p : Planned) : Option Call :=
  match c.phase with
  | .inFlight attempt place none => some { c with phase := .inFlight attempt place (some p) }
  | _ => none

/-- A bound on the pieces of work that a call can do before it ends or waits for a response. -/
def worksLeft (c : Call) (router : Router) : Nat :=
  match c.phase with
  | .poised attempt => 2 * (router.roster.budget + 1 - attempt) + 1
  | .inFlight attempt _ _ => 2 * (router.roster.budget + 1 - attempt)
  | .ended _ => 0

end Call

end ClusterClient
