import ClusterClient.Json.Record

/-!
# Queries

A question put to a stream, with the options that narrow its answer.
-/

namespace ClusterClient

open Json

/-- A question to a stream. -/
structure Query where
  text : String
  /-- The bounds of the window in which a memory must be valid; either may be open. -/
  start : Option Instant := none
  finish : Option Instant := none
  /-- Whether the answer shall hold the vectors of its hits. -/
  vectors : Bool := false
  /-- Whether the cluster shall settle conflicts between memories. -/
  arbitration : Bool := false
  minScore : Option Binary32 := none
  /-- Over how many hops of the memory graph the answer may reach. -/
  depth : Option UInt64 := none
  /-- Only memories recorded up to this instant count. -/
  asOf : Option Instant := none
  deriving DecidableEq, Repr

namespace Query

def instantValue (t : Instant) : Value :=
  .string (String.ofList t.timestamp)

/-- The body in which a query is sent. Open bounds are sent as null; the last three members only
when they are set. -/
def toValue (q : Query) : Value :=
  .ofPresent
    [("query", some (.string q.text)),
      ("start_time", some ((q.start.map instantValue).getD .null)),
      ("end_time", some ((q.finish.map instantValue).getD .null)),
      ("include_vector", some (.bool q.vectors)),
      ("enable_arbitration", some (.bool q.arbitration)),
      ("min_score", q.minScore.map .ofSingle),
      ("graph_depth", q.depth.map fun n => .ofNat n.toNat),
      ("as_of", q.asOf.map instantValue)]

def record : Record Query where
  name := "RetrieveRequest"
  blank := ⟨"", none, none, false, false, none, none, none⟩
  fields :=
    [.needed "query" Decoder.ofString fun s q => { q with text := s },
      .defaulted "start_time" Decoder.ofTimestamp.optional fun t q => { q with start := t },
      .defaulted "end_time" Decoder.ofTimestamp.optional fun t q => { q with finish := t },
      .defaulted "include_vector" Decoder.ofBool fun b q => { q with vectors := b },
      .defaulted "enable_arbitration" Decoder.ofBool fun b q => { q with arbitration := b },
      .defaulted "min_score" Decoder.ofSingle.optional fun x q => { q with minScore := x },
      .defaulted "graph_depth" (Decoder.ofUInt64 "usize").optional
        fun n q => { q with depth := n },
      .defaulted "as_of" Decoder.ofTimestamp.optional fun t q => { q with asOf := t }]

def decoder : Decoder Query := record.decoder

end Query

end ClusterClient
