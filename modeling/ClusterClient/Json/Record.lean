import ClusterClient.Json.Decoder

/-!
# Records

The decoding of structured messages. A record is read from an object, whose members may come in
any order, or from an array, which lists the fields in the order of their declaration.

* `Field`, `Record`: what a record consists of;
* `Record.decoder`: the decoder of a record.

The value under construction starts as `Record.blank`, in which every field that may be left out
has its default; a required field is always set before the value is handed out.
-/

namespace ClusterClient.Json

/-- A field of a record: what its member is called, whether it must be present, and how its value
changes the record. -/
structure Field (α : Type) where
  name : String
  required : Bool
  read : Decoder (α → α)

namespace Field

def needed {α β : Type} (name : String) (d : Decoder β) (set : β → α → α) : Field α :=
  ⟨name, true, fun room t => (d room t).map set⟩

def defaulted {α β : Type} (name : String) (d : Decoder β) (set : β → α → α) : Field α :=
  ⟨name, false, fun room t => (d room t).map set⟩

end Field

/-- A record type: its name in messages, its defaults and its fields in order. -/
structure Record (α : Type) where
  name : String
  blank : α
  fields : List (Field α)

namespace Record

variable {α : Type}

def field? (r : Record α) (name : String) : Option (Field α) :=
  r.fields.find? (·.name == name)

def title (r : Record α) : String :=
  "struct " ++ r.name

/-- The end of an object: the first required field that was not among the members is missing. -/
def close (r : Record α) (seen : List String) (a : α) : Except Problem α :=
  match r.fields.find? fun f => f.required && !seen.contains f.name with
  | some f => .error (.data (.missingField f.name))
  | none => .ok a

/-- Reads the members of an object. A field may come once; members of other names are passed
over, whatever they hold. -/
def readMembers (r : Record α) (room : Nat) (seen : List String) (a : α) :
    List (Token × Tree) → Except Problem α
  | [] => r.close seen a
  | (token, t) :: ms =>
    match token.name with
    | .error p => .error p
    | .ok name =>
      match r.field? name with
      | some f =>
        if seen.contains name then .error (.data (.duplicateField name))
        else
          match f.read room t with
          | .ok set => readMembers r room (name :: seen) (set a) ms
          | .error p => .error p
      | none => if t.isComplete then readMembers r room seen a ms else .error .malformed

/-- The problem of an array with too few items. -/
def tooShort (r : Record α) (length : Nat) : Problem :=
  .data (.invalidLength length
    (r.title ++ " with " ++ toString r.fields.length ++ " elements"))

/-- Reads the items of an array for the fields that are left, of which the first is the
`index`-th. Fields with a default may be left out at the end. -/
def readItems (r : Record α) (room : Nat) (index : Nat) (a : α) :
    List (Field α) → List Tree → Except Problem α
  | [], [] => .ok a
  | [], _ :: _ => .error .malformed
  | f :: fs, [] =>
    if f.required then .error (r.tooShort index) else readItems r room (index + 1) a fs []
  | f :: fs, t :: ts =>
    match f.read room t with
    | .ok set => readItems r room (index + 1) (set a) fs ts
    | .error p => .error p

def decoder (r : Record α) : Decoder α :=
  fun room t =>
    match t, room with
    | .object _, 0 | .array _, 0 => .error .malformed
    | .object ms, room + 1 => r.readMembers room [] r.blank ms
    | .array ts, room + 1 => r.readItems room 0 r.blank r.fields ts
    | _, _ => .error (mismatch r.title t)

end Record

end ClusterClient.Json
