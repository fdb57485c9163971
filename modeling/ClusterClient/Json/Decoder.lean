import ClusterClient.Json.Tree
import ClusterClient.Json.Scalar
import ClusterClient.Uuid

/-!
# Decoding

A decoder turns a syntax tree into a value of some type, from left to right, and stops at the
first problem. It is told how many arrays and objects may still be opened around one another;
opening one more than that makes the text malformed.

* `Decoder`, `decode`: decoders of trees, and the decoding of a whole body;
* `mismatch`: the problem of a value of the wrong type;
* `Decoder.ofValue`: the decoder of any value;
* `Decoder.ofString` and its neighbours: the decoders of basic types, lists and enumerations.
-/

namespace ClusterClient.Json

/-- A decoder, given the number of arrays and objects that may still be nested. -/
abbrev Decoder (α : Type) := Nat → Tree → Except Problem α

/-- How many arrays and objects may be nested in a body. -/
def nestingLimit : Nat := 127

/-- Decodes a body. What follows the value is a problem only if the value has none. -/
def decode {α : Type} (d : Decoder α) (bytes : List UInt8) : Except Problem α :=
  let document := Document.ofBytes bytes
  match d nestingLimit document.tree with
  | .ok a => if document.trailing then .error .malformed else .ok a
  | .error p => .error p

def Tree.found : Tree → Except Problem Found
  | .scalar s => s.value.map Value.found
  | .array _ => .ok .sequence
  | .object _ => .ok .map
  | .broken => .error .malformed

/-- The problem of a tree that is not what was expected. A scalar that denotes nothing is
malformed before it is of the wrong type. -/
def mismatch (expected : String) (t : Tree) : Problem :=
  match t.found with
  | .ok found => .data (.invalidType found expected)
  | .error p => p

namespace Decoder

/-! ## Any value -/

mutual

def ofValue (room : Nat) : Tree → Except Problem Value
  | .scalar s => s.value
  | .array items =>
    match room with
    | 0 => .error .malformed
    | room + 1 => (ofItems room items).map .array
  | .object members =>
    match room with
    | 0 => .error .malformed
    | room + 1 => (ofMembers room [] members).map .object
  | .broken => .error .malformed

def ofItems (room : Nat) : List Tree → Except Problem (List Value)
  | [] => .ok []
  | t :: ts =>
    match ofValue room t with
    | .ok v => (ofItems room ts).map (v :: ·)
    | .error p => .error p

/-- Decodes the members of an object, adding to those that came before. -/
def ofMembers (room : Nat) (done : List (String × Value)) :
    List (Token × Tree) → Except Problem (List (String × Value))
  | [] => .ok done
  | (token, t) :: ms =>
    match token.name with
    | .ok name =>
      match ofValue room t with
      | .ok v => ofMembers room (insertMember name v done) ms
      | .error p => .error p
    | .error p => .error p

end

/-! ## Basic types -/

/-- The decoder that accepts what `read` accepts of a scalar's value; all else is not what was
expected. -/
def ofScalar {α : Type} (expected : String) (read : Value → Option (Except Problem α)) :
    Decoder α :=
  fun _ t =>
    match t with
    | .scalar s =>
      match s.value with
      | .ok v => (read v).getD (.error (mismatch expected t))
      | .error p => .error p
    | _ => .error (mismatch expected t)

def ofString : Decoder String :=
  ofScalar "a string" fun
    | .string s => some (.ok s)
    | _ => none

def ofBool : Decoder Bool :=
  ofScalar "a boolean" fun
    | .bool b => some (.ok b)
    | _ => none

/-- Decodes a natural number of a width in bits, whose name is used in messages. A number with a
fraction or an exponent is of another type, an integer out of range is of the wrong value. -/
def ofNat (name : String) (bits : Nat) : Decoder Nat :=
  ofScalar name fun
    | .number (.integer i) =>
      some (if 0 ≤ i ∧ i < Nat.pow 2 bits then .ok i.toNat else .error (.data (.invalidValue i name)))
    | _ => none

def ofUInt8 : Decoder UInt8 :=
  fun room t => (ofNat "u8" 8 room t).map Nat.toUInt8

/-- Decodes an unsigned word of 64 bits, under the name that messages use. -/
def ofUInt64 (name : String) : Decoder UInt64 :=
  fun room t => (ofNat name 64 room t).map Nat.toUInt64

/-- Decodes a single precision number: the one nearest to an integer, or to the double that a
number with fraction or exponent denotes. -/
def ofSingle : Decoder Binary32 :=
  ofScalar "f32" fun
    | .number (.integer i) => some (.ok (.ofInt i))
    | .number (.real x) => some (.ok (x.convert .single))
    | _ => none

/-- Decodes a string that a reader understands. -/
def ofText {α : Type} (expected : String) (read : List Char → Except Cause α) : Decoder α :=
  ofScalar expected fun
    | .string s => some ((read s.toList).mapError Problem.data)
    | _ => none

/-- Decodes a hyphenated or otherwise written identifier. -/
def ofUuid : Decoder Uuid :=
  ofText "a formatted UUID string" fun cs =>
    match Uuid.read? cs with
    | some u => .ok u
    | none => .error .invalidUuid

def ofTimestamp : Decoder Instant :=
  ofText "an RFC 3339 formatted date and time string" fun cs =>
    (Timestamp.read cs).mapError .invalidTime

/-- Decodes null as nothing and all else as the given decoder does. -/
def optional {α : Type} (d : Decoder α) : Decoder (Option α) :=
  fun room t =>
    match t with
    | .scalar .null => .ok none
    | _ => (d room t).map some

def each {α : Type} (d : Decoder α) (room : Nat) : List Tree → Except Problem (List α)
  | [] => .ok []
  | t :: ts =>
    match d room t with
    | .ok a => (each d room ts).map (a :: ·)
    | .error p => .error p

def listOf {α : Type} (d : Decoder α) : Decoder (List α) :=
  fun room t =>
    match t with
    | .array items =>
      match room with
      | 0 => .error .malformed
      | room + 1 => each d room items
    | _ => .error (mismatch "a sequence" t)

/-! ## Enumerations -/

def variant {α : Type} (known : List (String × α)) (name : String) : Except Problem α :=
  match known.lookup name with
  | some a => .ok a
  | none => .error (.data (.unknownVariant name (known.map Prod.fst)))

def variantOfToken {α : Type} (known : List (String × α)) : Token → Except Problem α
  | .scalar s =>
    match s.value with
    | .ok (.string name) => variant known name
    | .ok v => .error (.data (.invalidType v.found "variant identifier"))
    | .error p => .error p
  | .openArray => .error (.data (.invalidType .sequence "variant identifier"))
  | .openObject => .error (.data (.invalidType .map "variant identifier"))
  | _ => .error .malformed

/-- Decodes one of several names: as a string, or as the only member of an object, with null for
its value. What is neither counts as malformed. -/
def oneOf {α : Type} (known : List (String × α)) : Decoder α :=
  fun room t =>
    match t, room with
    | .scalar (.string ps), _ => variantOfToken known (.scalar (.string ps))
    | .object ((token, payload) :: rest), _ + 1 =>
      match variantOfToken known token with
      | .error p => .error p
      | .ok a =>
        match payload with
        | .scalar .null => if rest.isEmpty then .ok a else .error .malformed
        | _ => .error (mismatch "unit" payload)
    | _, _ => .error .malformed

/-! ## What decoders accept -/

/-- The inversion of a mapped result: it has a value exactly if the result has one. -/
theorem map_eq_ok {ε α β : Type} {f : α → β} {x : Except ε α} {b : β} :
    x.map f = .ok b ↔ ∃ a, x = .ok a ∧ f a = b := by
  constructor
  · intro h
    cases x with
    | ok a => exact ⟨a, rfl, Except.ok.inj h⟩
    | error e => cases h
  · rintro ⟨a, rfl, rfl⟩
    rfl

/-- Only strings name members. -/
theorem name_eq_ok {k : Token} {name : String} :
    k.name = .ok name ↔ ∃ ps, k = .scalar (.string ps) ∧ textOfPieces? ps = some name := by
  unfold Token.name
  constructor
  · intro h
    split at h
    · next ps =>
      split at h
      · next s hs =>
        cases h
        exact ⟨ps, rfl, hs⟩
      · cases h
    · cases h
  · rintro ⟨ps, rfl, hname⟩
    dsimp only
    rw [hname]

/-- Items are values exactly if the first one is and the others are. -/
theorem ofItems_cons_eq_ok {room : Nat} {t : Tree} {ts : List Tree} {vs : List Value} :
    ofItems room (t :: ts) = .ok vs ↔
      ∃ v more, ofValue room t = .ok v ∧ ofItems room ts = .ok more ∧ vs = v :: more := by
  rw [ofItems]
  constructor
  · intro h
    split at h
    · next v hv =>
      obtain ⟨more, hmore, rfl⟩ := map_eq_ok.mp h
      exact ⟨v, more, hv, hmore, rfl⟩
    · cases h
  · rintro ⟨v, more, hv, hmore, rfl⟩
    simp only [hv]
    exact map_eq_ok.mpr ⟨more, hmore, rfl⟩

/-- Members are read exactly if the first one has a name and a value, and the others are read on top
of it. -/
theorem ofMembers_cons_eq_ok {room : Nat} {done final : List (String × Value)} {token : Token}
    {t : Tree} {ms : List (Token × Tree)} :
    ofMembers room done ((token, t) :: ms) = .ok final ↔
      ∃ name v, token.name = .ok name ∧ ofValue room t = .ok v ∧
        ofMembers room (insertMember name v done) ms = .ok final := by
  simp only [ofMembers]
  constructor
  · intro h
    split at h
    · next name hname =>
      split at h
      · next v hv => exact ⟨name, v, hname, hv, h⟩
      · cases h
    · cases h
  · rintro ⟨name, v, hname, hv, h⟩
    simp only [hname, hv]
    exact h

/-- What a scalar decoder accepts is a scalar with a value. -/
theorem ofScalar_eq_ok {α : Type} {expected : String} {read : Value → Option (Except Problem α)}
    {room : Nat} {t : Tree} {a : α} (h : ofScalar expected read room t = .ok a) :
    ∃ s v, t = .scalar s ∧ s.value = .ok v ∧ read v = some (.ok a) := by
  unfold ofScalar at h
  split at h
  · next s =>
    split at h
    · next v hv =>
      refine ⟨s, v, rfl, hv, ?_⟩
      cases hread : read v with
      | none =>
        rw [hread] at h
        cases h
      | some result =>
        rw [hread] at h
        exact congrArg some h
    · cases h
  · cases h

/-- What is read as a text has that text for its value. -/
theorem ofString_eq_ok {room : Nat} {t : Tree} {text : String} (h : ofString room t = .ok text) :
    ofValue room t = .ok (.string text) := by
  obtain ⟨s, v, rfl, hv, hread⟩ := ofScalar_eq_ok h
  split at hread
  · cases hread
    exact hv
  · cases hread

/-- Where an identifier is read, any reader of values finds a value too. -/
theorem ofUuid_eq_ok {room : Nat} {t : Tree} {u : Uuid} (h : ofUuid room t = .ok u) :
    ∃ v, ofValue room t = .ok v := by
  obtain ⟨s, v, rfl, hv, -⟩ := ofScalar_eq_ok (show ofScalar _ _ room t = .ok u from h)
  exact ⟨v, hv⟩

end Decoder

/-- A body is decoded exactly if its tree is, and nothing but space comes after it. -/
theorem decode_eq_ok {α : Type} {d : Decoder α} {body : List UInt8} {a : α} :
    decode d body = .ok a ↔ d nestingLimit (Document.ofBytes body).tree = .ok a ∧
      (Document.ofBytes body).trailing = false := by
  unfold decode
  cases hd : d nestingLimit (Document.ofBytes body).tree with
  | error p => simp [hd]
  | ok b => cases ht : (Document.ofBytes body).trailing <;> simp [hd, ht]

end ClusterClient.Json
