import ClusterClient.Http.Message

/-!
# The journal

What a router writes down about its attempts.

* `Entry`: an entry by what it is about;
* `Entry.line`: the entry as it is written, with its level, its message and its fields.
-/

namespace ClusterClient

/-- How much an entry of the journal matters. -/
inductive Level where
  | debug
  | info
  | warn
  deriving DecidableEq, Repr

def Level.name : Level → String
  | .debug => "DEBUG"
  | .info => "INFO"
  | .warn => "WARN"

/-- An entry of the journal. -/
inductive Entry where
  /-- An attempt is about to be sent. -/
  | sending (attempt budget : Nat) (endpoint : String) (method : Method) (path : String)
  /-- A node referred to its leader. -/
  | redirected (endpoint : String) (leader : Option Nat)
  /-- A node was not the leader. -/
  | notLeader (endpoint : String) (hint : Option String)
  /-- A node was not reached. -/
  | offline (endpoint reason : String)
  /-- No attempt is left. -/
  | exhausted (attempts endpoints : Nat)
  deriving DecidableEq, Repr

namespace Entry

def level : Entry → Level
  | .sending .. => .debug
  | .redirected .. | .notLeader .. => .info
  | .offline .. | .exhausted .. => .warn

def message : Entry → String
  | .sending .. => "sending request"
  | .redirected .. => "node redirected to leader"
  | .notLeader .. => "node is not leader, retrying"
  | .offline .. => "node is offline, trying next"
  | .exhausted .. => "all nodes in cluster are unreachable or failed"

/-- How an entry shows the number of a leader. -/
def leaderText : Option Nat → String
  | some n => "Some(" ++ toString n ++ ")"
  | none => "None"

def hintText (hint : Option String) : String :=
  hint.getD "unknown"

end Entry

/-- The value of a field of a line. -/
inductive Field where
  | number (n : Nat)
  | text (s : String)
  deriving DecidableEq, Repr

/-- An entry as it is written. -/
structure Line where
  level : Level
  message : String
  /-- The fields by name, in their order. -/
  fields : List (String × Field)
  deriving DecidableEq, Repr

namespace Entry

def fields : Entry → List (String × Field)
  | .sending attempt budget endpoint method path =>
    [("attempt", .number attempt), ("budget", .number budget), ("endpoint", .text endpoint),
      ("method", .text method.name), ("path", .text path)]
  | .redirected endpoint leader =>
    [("endpoint", .text endpoint), ("leader_id", .text (leaderText leader))]
  | .notLeader endpoint hint => [("endpoint", .text endpoint), ("hint", .text (hintText hint))]
  | .offline endpoint reason => [("endpoint", .text endpoint), ("reason", .text reason)]
  | .exhausted attempts endpoints =>
    [("attempts", .number attempts), ("endpoints", .number endpoints)]

def line (e : Entry) : Line :=
  ⟨e.level, e.message, e.fields⟩

end Entry

end ClusterClient
