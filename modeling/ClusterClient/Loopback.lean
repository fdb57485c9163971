import ClusterClient.Http.Address
import ClusterClient.Routing.World

/-!
# Loopback

A client over HTTP, with nodes whose behaviour is laid down: each request takes the next item of
the node's list. Calls run one after the other.

* `Node`, `Network`: the nodes and what they have seen;
* `Network.ask`: what becomes of one request;
* `Call.converse`: a call that nobody cancels, against anything that answers requests;
* `Network.call`: one call of a client.
-/

namespace ClusterClient

/-! ## Conversations -/

namespace Call

/-- Lets a call work until its end, with `ask` answering the attempts one by one; `fuel` bounds
the pieces of work and the answers. -/
def converse {σ : Type} (ask : σ → Nat → Request → Response × σ) :
    Nat → Call → Router → σ → Call × Router × σ
  | 0, c, router, s => (c, router, s)
  | fuel + 1, c, router, s =>
    match c.phase with
    | .inFlight attempt place none =>
      let (response, s) := ask s place c.request
      converse ask fuel { c with phase := .inFlight attempt place (some ⟨response, none⟩) } router s
    | _ =>
      match c.move router false with
      | some move => converse ask fuel move.call move.router s
      | none => (c, router, s)

/-- The result of a request that is made against `ask`, the router afterwards, and the state of
what answered. Three steps for each attempt and one for the end are enough. -/
def exchange {σ : Type} (ask : σ → Nat → Request → Response × σ) (router : Router)
    (request : Request) (s : σ) : Option (Except Fault Reply) × Router × σ :=
  let (call, router, s) := converse ask (3 * router.roster.budget + 3) { request } router s
  match call.phase with
  | .ended result => (some result, router, s)
  | _ => (none, router, s)

end Call

/-! ## Nodes -/

/-- What a node does with a request. -/
inductive Behaviour where
  | reply (r : Reply)
  /-- The body ends before its announced length. -/
  | truncated
  /-- The connection is closed without an answer. -/
  | closed
  /-- There is no answer in time. -/
  | silent
  deriving DecidableEq, Repr

/-- A node, or what stands in the place of one. -/
inductive Node where
  /-- Answers requests as listed; when the list is used up it closes connections. -/
  | serving (behaviours : List Behaviour)
  /-- Refuses connections. -/
  | dead
  /-- Has an endpoint that is no valid URL. -/
  | invalid
  deriving DecidableEq, Repr

/-- A request as a node saw it. -/
structure Sighting where
  node : Nat
  method : Method
  target : String
  headers : Headers
  body : List UInt8
  deriving DecidableEq, Repr

/-- The nodes in the order of the roster, and the requests that they have seen. -/
structure Network where
  endpoints : List String
  nodes : List Node
  seen : List Sighting := []
  deriving DecidableEq, Repr

/-- A field value without the white space around it. -/
def trimField (s : String) : String :=
  let blank := fun c : Char => c = ' ' || c = '\t'
  String.ofList (((s.toList.dropWhile blank).reverse.dropWhile blank).reverse)

/-- The fields of a request that say what it is about: the type of the body and the names that
begin with `x-`. -/
def tellingHeaders (hs : Headers) : Headers :=
  (hs.sorted.filter fun h => h.1 == contentTypeHeader || ['x', '-'].isPrefixOf h.1.toList).map
    fun h => (h.1, trimField h.2)

def statusHasBody (status : Nat) : Bool :=
  status ≠ 204 && status ≠ 304

namespace Network

/-- The address to which a request for a node is sent. -/
def address (n : Network) (place : Nat) (path : String) : Address :=
  .ofUrl (joinUrl (n.endpoints.getD place "") path)

/-- The network after a node has seen a request and taken an item of its list. -/
def witness (n : Network) (place : Nat) (request : Request) (rest : List Behaviour) : Network :=
  let target := String.ofList (n.address place request.path).target
  { n with
    nodes := n.nodes.set place (.serving rest)
    seen := n.seen ++
      [⟨place, request.method, target, tellingHeaders request.headers, request.bodyBytes⟩] }

/-- What the client notices of a node's behaviour. -/
def response (n : Network) (place : Nat) (request : Request) : Behaviour → Response
  | .reply r => .reply ⟨r.status, if statusHasBody r.status then r.body else []⟩
  | .truncated => .failure false none "error decoding response body"
  | .closed => .failure true none (sendingFailed n place request)
  | .silent => .failure false none (sendingFailed n place request)
where
  /-- The reason when a request was sent and no reply began. -/
  sendingFailed (n : Network) (place : Nat) (request : Request) : String :=
    "error sending request for url (" ++
      String.ofList (n.address place request.path).text ++ ")"

/-- What becomes of a request to a node. -/
def ask (n : Network) (place : Nat) (request : Request) : Response × Network :=
  match n.nodes.getD place .dead with
  | .dead => (n.response place request .closed, n)
  | .invalid => (.failure false none "builder error", n)
  | .serving [] => (n.response place request .closed, n.witness place request [])
  | .serving (b :: bs) => (n.response place request b, n.witness place request bs)

/-- One call of a client: what it gives, the router and the network afterwards. -/
def call (n : Network) (router : Router) (stream : Uuid) (purpose : Purpose) :
    Option (Except Fault Answer) × Router × Network :=
  let request := router.roster.request (purpose.draft stream router.roster.tenant)
  let (result, router, n) := Call.exchange ask router request n
  (result.map fun r => purpose.conclude r, router, n)

end Network

end ClusterClient
