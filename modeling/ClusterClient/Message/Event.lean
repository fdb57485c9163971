import ClusterClient.Json.Record

/-!
# Events

What a client stores in a stream, and the receipt that the cluster gives for it.

* `ContentKind`: what an event carries, by the name that the cluster uses;
* `Event`: tenant and content, with optional attributes that are left out of the body when unset;
* `Receipt`: the answer to a stored event.
-/

namespace ClusterClient

open Json

/-- The kind of an event's content. -/
inductive ContentKind where
  | text
  | image
  | audio
  | json
  deriving DecidableEq, Repr

namespace ContentKind

/-- The kind that the cluster assumes. -/
def standard : ContentKind := .text

def name : ContentKind → String
  | .text => "text"
  | .image => "image"
  | .audio => "audio"
  | .json => "json"

def named : List (String × ContentKind) :=
  [.text, .image, .audio, .json].map fun k => (k.name, k)

def toValue (k : ContentKind) : Value :=
  .string k.name

def decoder : Decoder ContentKind :=
  Decoder.oneOf named

end ContentKind

/-- An event to be stored. -/
structure Event where
  tenant : String
  content : String
  kind : Option ContentKind := none
  /-- The memory level that the event is meant for. -/
  level : Option UInt8 := none
  /-- The task that the event's task is a part of. -/
  parent : Option String := none
  taskStatus : Option String := none
  taskProgress : Option Binary32 := none
  deriving DecidableEq, Repr

namespace Event

/-- The event with its task's parent, status and progress. -/
def withTask (e : Event) (parent : Option String) (status : String) (progress : Binary32) :
    Event :=
  { e with parent := parent, taskStatus := some status, taskProgress := some progress }

def toValue (e : Event) : Value :=
  .ofPresent
    [("tenant_id", some (.string e.tenant)),
      ("content", some (.string e.content)),
      ("content_type", e.kind.map ContentKind.toValue),
      ("level", e.level.map fun n => .ofNat n.toNat),
      ("parent_id", e.parent.map .string),
      ("task_status", e.taskStatus.map .string),
      ("task_progress", e.taskProgress.map .ofSingle)]

/-- The body names the event's tenant, whatever else it says. -/
theorem tenant_toValue (e : Event) : e.toValue.textOf? "tenant_id" = some e.tenant := by
  have hfound : e.toValue.get? "tenant_id" = some (.string e.tenant) :=
    Value.get?_ofPresent_cons (by simp)
  rw [Value.textOf?, hfound]
  rfl

def record : Record Event where
  name := "IngestRequest"
  blank := ⟨"", "", none, none, none, none, none⟩
  fields :=
    [.needed "tenant_id" Decoder.ofString fun s e => { e with tenant := s },
      .needed "content" Decoder.ofString fun s e => { e with content := s },
      .defaulted "content_type" ContentKind.decoder.optional fun k e => { e with kind := k },
      .defaulted "level" Decoder.ofUInt8.optional fun n e => { e with level := n },
      .defaulted "parent_id" Decoder.ofString.optional fun s e => { e with parent := s },
      .defaulted "task_status" Decoder.ofString.optional fun s e => { e with taskStatus := s },
      .defaulted "task_progress" Decoder.ofSingle.optional
        fun x e => { e with taskProgress := x }]

def decoder : Decoder Event := record.decoder

end Event

/-- The cluster's answer to an event. -/
structure Receipt where
  status : String
  event : Uuid
  deriving DecidableEq, Repr

namespace Receipt

def record : Record Receipt where
  name := "IngestResponse"
  blank := ⟨"", .nil⟩
  fields :=
    [.needed "status" Decoder.ofString fun s r => { r with status := s },
      .needed "event_id" Decoder.ofUuid fun u r => { r with event := u }]

def decoder : Decoder Receipt := record.decoder

end Receipt

end ClusterClient
