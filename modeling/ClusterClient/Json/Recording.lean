import ClusterClient.Json.Decoder

/-!
# Recordings

A value of which nobody knows yet what it stands for is recorded, so that it can be read in one
way after another without going back to the text.

* `Recording`: what is kept of a value;
* `Decoder.ofRecording`: the decoder that records any value;
* `Recording.value`, `Recording.single?`: readings of a recording;
* `Decoder.reading`: the decoder that records a value and reads it in the first way that works.
-/

namespace ClusterClient.Json

/-- A value as it was read. An object keeps all its members in the order of the text, also those
whose name comes again. -/
inductive Recording where
  | null
  | bool (b : Bool)
  | number (n : Number)
  | string (s : String)
  | array (items : List Recording)
  | object (members : List (String × Recording))

namespace Recording

def ofScalar : Scalar → Except Problem Recording
  | .null => .ok .null
  | .bool b => .ok (.bool b)
  | .number n =>
    match n.number? with
    | some x => .ok (.number x)
    | none => .error .malformed
  | .string ps =>
    match textOfPieces? ps with
    | some s => .ok (.string s)
    | none => .error .malformed

mutual

/-- The value that was recorded. Only now the last of the members of a name counts. -/
def value : Recording → Value
  | .null => .null
  | .bool b => .bool b
  | .number n => .number n
  | .string s => .string s
  | .array items => .array (itemValues items)
  | .object members => .ofMembers (memberValues members)

def itemValues : List Recording → List Value
  | [] => []
  | r :: rs => value r :: itemValues rs

def memberValues : List (String × Recording) → List (String × Value)
  | [] => []
  | (name, r) :: ms => (name, value r) :: memberValues ms

end

/-- The single precision number nearest to a recorded number. -/
def single? : Recording → Option Binary32
  | .number (.integer i) => some (.ofInt i)
  | .number (.real x) => some (x.convert .single)
  | _ => none

end Recording

namespace Decoder

mutual

/-- Records any value. -/
def ofRecording (room : Nat) : Tree → Except Problem Recording
  | .scalar s => Recording.ofScalar s
  | .array items =>
    match room with
    | 0 => .error .malformed
    | room + 1 => (recordItems room items).map .array
  | .object members =>
    match room with
    | 0 => .error .malformed
    | room + 1 => (recordMembers room members).map .object
  | .broken => .error .malformed

def recordItems (room : Nat) : List Tree → Except Problem (List Recording)
  | [] => .ok []
  | t :: ts =>
    match ofRecording room t with
    | .ok r => (recordItems room ts).map (r :: ·)
    | .error p => .error p

def recordMembers (room : Nat) : List (Token × Tree) → Except Problem (List (String × Recording))
  | [] => .ok []
  | (token, t) :: ms =>
    match token.name with
    | .ok name =>
      match ofRecording room t with
      | .ok r => (recordMembers room ms).map ((name, r) :: ·)
      | .error p => .error p
    | .error p => .error p

end

/-- Records a value and reads the recording in the first of several ways that works, or else in a
last way that always does. -/
def reading {α : Type} (ways : List (Recording → Option α)) (last : Recording → α) : Decoder α :=
  fun room t => (ofRecording room t).map fun r => (ways.findSome? (· r)).getD (last r)

end Decoder

end ClusterClient.Json
