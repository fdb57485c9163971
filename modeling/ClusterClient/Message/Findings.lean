import ClusterClient.Json.Record
import ClusterClient.Json.Recording

/-!
# Findings and backlogs

What the cluster answers when it is asked: memory units as it holds them, most of them with a
score, and how many events a node has still to digest.

* `Hit`: one unit, read from a pair of unit and score, or from any other value as a bare unit;
* `Findings`: all hits of a query;
* `Backlog`: what is still to be digested.
-/

namespace ClusterClient

open Json

/-- One memory unit of an answer. -/
structure Hit where
  unit : Value
  score : Option Binary32

namespace Hit

def content (h : Hit) : Option String :=
  h.unit.textOf? "content"

/-- The identifier of the unit, if it has one. -/
def id (h : Hit) : Option String :=
  h.unit.textOf? "id"

/-- The hit of a pair whose second part is a number: a unit with its score. -/
def scored? : Recording → Option Hit
  | .array [unit, score] => score.single?.map fun x => ⟨unit.value, some x⟩
  | _ => none

/-- The hit of any value, as a unit alone. -/
def bare (r : Recording) : Hit :=
  ⟨r.value, none⟩

def decoder : Decoder Hit :=
  Decoder.reading [scored?] bare

end Hit

/-- The answer to a query. -/
structure Findings where
  /-- The stream that was searched. -/
  stream : Option Uuid
  /-- The question as the cluster understood it. -/
  query : Option String
  /-- The best hits first. -/
  hits : List Hit

namespace Findings

/-- The fields of an answer; all of them may be left out. -/
def record : Record Findings where
  name := "RetrieveResponse"
  blank := ⟨none, none, []⟩
  fields :=
    [.defaulted "stream_id" Decoder.ofUuid.optional fun u a => { a with stream := u },
      .defaulted "query" Decoder.ofString.optional fun s a => { a with query := s },
      .defaulted "results" Hit.decoder.listOf fun hs a => { a with hits := hs }]

def decoder : Decoder Findings := record.decoder

end Findings

/-- The backlog of a node. -/
structure Backlog where
  pending : UInt64
  /-- Whether nothing is pending, by the node's own word. -/
  ready : Bool
  deriving DecidableEq, Repr

namespace Backlog

def toValue (b : Backlog) : Value :=
  .ofMembers [("pending", .ofNat b.pending.toNat), ("ready", .bool b.ready)]

def record : Record Backlog where
  name := "PendingStatus"
  blank := ⟨0, false⟩
  fields :=
    [.needed "pending" (Decoder.ofUInt64 "usize") fun n b => { b with pending := n },
      .needed "ready" Decoder.ofBool fun r b => { b with ready := r }]

def decoder : Decoder Backlog := record.decoder

end Backlog

end ClusterClient
