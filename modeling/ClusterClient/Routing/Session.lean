import ClusterClient.Routing.World

/-!
# Sessions

A session is a list of steps from outside. After each of them all calls work as far as they can,
and what has happened meanwhile is the account of the step.
-/

namespace ClusterClient

/-- A step of a session; clients are named by their number. -/
inductive Step where
  | call (id : String) (client : Nat) (purpose : Purpose) (token : Option String)
    (script : List Planned)
  /-- A response arrives for the attempt that a call has in flight. -/
  | reply (id : String) (p : Planned)
  | cancel (token : String)
  /-- A new client that shares the router of another one. -/
  | share (client : Nat)
  /-- A new client with a router of its own. -/
  | separate
  /-- Nothing happens. -/
  | look

namespace Step

/-- What a step does to the world, before the calls work; `none` when it has no effect. -/
def effect? (w : World) : Step → Option World
  | .call id client purpose token script =>
    w.handles[client]?.map fun h => w.start id h purpose token script
  | .reply id p => w.deliver? id p
  | .cancel token => some (w.fire token)
  | .share client => w.handles[client]?.map w.share
  | .separate => w.handles[0]?.map w.separate
  | .look => some w

end Step

/-- What came of a step. -/
structure Account where
  /-- The world when no call can work any more. -/
  world : World
  /-- What has happened, in order. -/
  reports : List Report
  /-- Whether the step had no effect. -/
  ignored : Bool

namespace World

def take (w : World) (s : Step) : Account :=
  let applied := s.effect? w
  let settled := (applied.getD w).settle
  ⟨settled, settled.history.drop w.history.length, applied.isNone⟩

def session (w : World) : List Step → List Account
  | [] => []
  | s :: ss => w.take s :: session (w.take s).world ss

end World

end ClusterClient
