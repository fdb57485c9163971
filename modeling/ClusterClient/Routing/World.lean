import ClusterClient.Routing.Call

/-!
# Calls side by side

Any number of calls on any number of routers, as they share leaders and tokens. The state is a
`World`; whatever a caller or the network does to it is one function, and so is one piece of work
of one call, so that every schedule is a list of such steps.

* `World.work`: one piece of work of one call;
* `World.settle`: all calls work, the oldest first, until each has ended or waits for a response;
* `World.start`, `deliver?`, `fire`, `share`, `separate`: what comes from outside.
-/

namespace ClusterClient

/-- A client: a router, by its number, and a stream. -/
structure Handle where
  router : Nat
  stream : Uuid
  deriving DecidableEq, Repr

/-- What a call is for: one of the client's operations, or a request of the caller's own. -/
inductive Purpose where
  | operation (o : Operation)
  | plain (d : Draft)

namespace Purpose

/-- The caller's part of the request. -/
def draft (stream : Uuid) (tenant : String) : Purpose → Draft
  | .operation o => o.draft stream tenant
  | .plain d => d

/-- Notes a text: an event in the name of the router's own tenant. -/
def note (roster : Roster) (content : String) : Purpose :=
  .operation (.store { tenant := roster.tenant, content })

/-- What the reply of the cluster means. -/
def answer (r : Reply) : Purpose → Except Fault Answer
  | .operation o => o.answer r
  | .plain _ => .ok (.reply r)

/-- What the end of a call means. -/
def conclude (result : Except Fault Reply) (p : Purpose) : Except Fault Answer :=
  match result with
  | .ok r => p.answer r
  | .error f => .error f

end Purpose

/-- A call among others: its name, the number of its router and its purpose. -/
structure Job where
  id : String
  router : Nat
  purpose : Purpose
  call : Call

/-- Something that happened, and in which call, by its place in the list of calls and its name. -/
structure Report where
  place : Nat
  id : String
  occurrence : Occurrence

/-- All routers, clients and calls, and what has happened so far. -/
structure World where
  routers : List Router
  handles : List Handle
  /-- The calls in the order in which they were started. -/
  jobs : List Job := []
  /-- The tokens that have fired. -/
  fired : List String := []
  history : List Report := []

namespace World

/-- One client on a roster. -/
def single (roster : Roster) (stream : Uuid) : World :=
  { routers := [{ roster }], handles := [⟨0, stream⟩] }

/-- The router with a number. -/
def router? (w : World) (number : Nat) : Option Router :=
  w.routers[number]?

/-- The router of a client. -/
def routerOf? (w : World) (h : Handle) : Option Router :=
  w.router? h.router

/-! ## Work -/

/-- Whether the token of a call has fired. -/
def isCancelled (w : World) (c : Call) : Bool :=
  match c.token with
  | some token => w.fired.contains token
  | none => false

/-- The tokens that have fired when a call's own token fires; a call may have none. -/
def firedBy (w : World) (c : Call) (fires : Bool) : List String :=
  match c.token with
  | some token => if fires then token :: w.fired else w.fired
  | none => w.fired

/-- One piece of work of the call at a place of the list of calls; `none` when it can do none. -/
def work? (w : World) (place : Nat) : Option World := do
  let job ← w.jobs[place]?
  let router ← w.router? job.router
  let move ← job.call.move router (w.isCancelled job.call)
  return { w with
    routers := w.routers.set job.router move.router
    jobs := w.jobs.set place { job with call := move.call }
    fired := w.firedBy job.call move.fires
    history := w.history ++ move.events.map (⟨place, job.id, ·⟩) }

/-- One piece of work, if there is any. -/
def work (place : Nat) (w : World) : World :=
  (w.work? place).getD w

/-- Pieces of work of one call as long as it can do any, `fuel` at most. -/
def workOn (place : Nat) : Nat → World → World
  | 0, w => w
  | fuel + 1, w =>
    match w.work? place with
    | some w => workOn place fuel w
    | none => w

/-- A bound on the pieces of work that a call can do by itself. -/
def worksLeft (w : World) (place : Nat) : Nat :=
  match w.jobs[place]? with
  | some job => (w.router? job.router).elim 0 job.call.worksLeft
  | none => 0

/-- Lets the call at a place work until it has ended or waits. -/
def run (w : World) (place : Nat) : World :=
  w.workOn place (w.worksLeft place)

/-- Lets every call run once, the oldest first. -/
def sweep (w : World) : World :=
  (List.range w.jobs.length).foldl run w

/-- Lets every call run until none can work. The second sweep ends the calls whose token was
fired in the first one by a later call; nothing is left for a third. -/
def settle (w : World) : World :=
  w.sweep.sweep

/-! ## From outside -/

/-- Starts a call of a client. -/
def start (id : String) (handle : Handle) (purpose : Purpose) (token : Option String)
    (script : List Planned) (w : World) : World :=
  match w.routerOf? handle with
  | some router =>
    let request := router.roster.request (purpose.draft handle.stream router.roster.tenant)
    { w with jobs := w.jobs ++ [⟨id, handle.router, purpose, { request, token, script }⟩] }
  | none => w

/-- Delivers a response to the attempt that a call has in flight; `none` if it has none. -/
def deliver? (id : String) (p : Planned) (w : World) : Option World := do
  let place ← w.jobs.findIdx? (·.id == id)
  let job ← w.jobs[place]?
  let call ← job.call.deliver? p
  return { w with jobs := w.jobs.set place { job with call } }

/-- Fires a token. -/
def fire (token : String) (w : World) : World :=
  { w with fired := token :: w.fired }

/-- Adds a client that shares the router of another one. -/
def share (handle : Handle) (w : World) : World :=
  { w with handles := w.handles ++ [handle] }

/-- Adds a client with a router of its own, over the roster of another one and without its
experience. -/
def separate (handle : Handle) (w : World) : World :=
  match w.routerOf? handle with
  | some router =>
    { w with
      routers := w.routers ++ [{ roster := router.roster }]
      handles := w.handles ++ [⟨w.routers.length, handle.stream⟩] }
  | none => w

/-! ## Views -/

/-- The calls that have not ended, in the order in which they were started. -/
def pending (w : World) : List String :=
  (w.jobs.filter (!·.call.isEnded)).map Job.id

/-- What the call at a place makes of its end. -/
def conclude? (w : World) (place : Nat) (result : Except Fault Reply) :
    Option (Except Fault Answer) :=
  w.jobs[place]?.map fun job => job.purpose.conclude result

/-- The leader that each client believes in, by place and endpoint. -/
def leaders (w : World) : List (Nat × String) :=
  w.handles.filterMap fun h => (w.routerOf? h).map fun r => (r.lead, r.leadEndpoint)

end World

end ClusterClient
